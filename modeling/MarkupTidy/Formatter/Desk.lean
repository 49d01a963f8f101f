import MarkupTidy.Formatter.Basic

/-!
Format requests side by side. Requests for one document share a key, and a newer request tells the
one in flight to stop. Requests that have something to do wait in a queue; each resumes in its
turn and runs without interruption until it waits again. A request that was told to stop thereby
resumes before any request that was issued after it.
-/
namespace MarkupTidy

/-- Requests with equal keys are for the same document: one path, or one document without. -/
inductive DocumentKey
  | path (path : Path)
  | named (name : String)
  deriving DecidableEq

/-- How far a request is. -/
inductive Stage
  | issued
  | running (job : Job)
  /-- The engine has ended, and the request has yet to look at what it gave. -/
  | ended (job : Job)
  /-- The work is over, and the caller has yet to be told. -/
  | settled (result : Except Fault Outcome)
  | returned (result : Except Fault Outcome)

def Stage.isOver : Stage → Bool
  | .settled _ => true
  | .returned _ => true
  | _ => false

structure Request where
  document : String
  key : DocumentKey
  stage : Stage
  /-- The request was told to stop. -/
  isStopped : Bool
  /-- The caller no longer waits for the request. -/
  isAbandoned : Bool

/-- What a stopped request returns. -/
def Request.stoppedResult (r : Request) : Except Fault Outcome :=
  if r.isAbandoned then .error .cancelled else .ok .superseded

structure Desk where
  host : Host
  formatter : Formatter
  documents : List (String × Document)
  /-- All requests, numbered in the order of their issue. -/
  requests : List Request
  /-- The last request of each key that has not returned. -/
  inFlight : List (DocumentKey × Nat)
  /-- The requests that are to resume, in turn. -/
  due : List Nat

inductive DeskEvent
  | issue (document : String)
  /-- The request whose turn it is resumes; `useResult` says whether a stopped one whose engine has
  ended still takes what it gave. -/
  | resume (useResult : Bool)
  /-- The engine of a request ends, or its time is over. -/
  | engineEnds (request : Nat)
  | abandon (request : Nat)
  | refresh (edition : Edition)
  | edit (document text : String)

namespace Desk

/-- A desk without requests. -/
def ofFormatter (host : Host) (formatter : Formatter) (documents : List (String × Document)) :
    Desk :=
  ⟨host, formatter, documents, [], [], []⟩

def keyOf (name : String) (document : Document) : DocumentKey :=
  match document.path? with
  | some path => .path path
  | none => .named name

def updateRequest (desk : Desk) (id : Nat) (update : Request → Request) : Desk :=
  { desk with requests := desk.requests.modify id update }

def setStage (desk : Desk) (id : Nat) (stage : Stage) : Desk :=
  desk.updateRequest id fun r => { r with stage }

/-- The request is to resume after those that are due already. -/
def makeDue (desk : Desk) (id : Nat) : Desk := { desk with due := desk.due ++ [id] }

/-- The work of a request is over; its caller is to be told. -/
def settle (desk : Desk) (id : Nat) (result : Except Fault Outcome) : Desk :=
  (desk.setStage id (.settled result)).makeDue id

/-- Tell a request to stop. One whose engine runs resumes to do so; others are due already. -/
def stop (desk : Desk) (id : Nat) : Desk :=
  match desk.requests[id]? with
  | none => desk
  | some r =>
    if r.stage.isOver then desk
    else
      let told := desk.updateRequest id fun r => { r with isStopped := true }
      match r.stage, r.isStopped with
      | .running _, false => told.makeDue id
      | _, _ => told

/-- Issue a request for a document and stop the one in flight. -/
def issue (desk : Desk) (name : String) : Desk :=
  match desk.documents.lookup name with
  | none => desk
  | some document =>
    let key := keyOf name document
    let cleared := match desk.inFlight.lookup key with
      | some earlier => desk.stop earlier
      | none => desk
    let id := cleared.requests.length
    { cleared with
      requests := cleared.requests ++ [⟨name, key, .issued, false, false⟩]
      inFlight := Pairs.set key id cleared.inFlight
      due := cleared.due ++ [id] }

/-- A request begins its work. -/
def beginWork (desk : Desk) (id : Nat) (document : Document) : Desk :=
  let (begun, formatter) := (desk.formatter.beginRequest desk.host document).value
  let desk := { desk with formatter }
  match begun with
  | .settled outcome => desk.settle id (.ok outcome)
  | .raised fault => desk.settle id (.error fault)
  | .running job => desk.setStage id (.running job)

/-- A request takes what its engine gave. -/
def finishWork (desk : Desk) (id : Nat) (name : String) (document : Document) (job : Job) :
    Desk :=
  let (result, changed) := (Formatter.finishRequest desk.host job document).value
  let documents := Pairs.set name changed.document desk.documents
  { desk with host := changed.host, documents }.settle id result

/-- A request returns to its caller and leaves the table, unless a newer one has its place. -/
def returnResult (desk : Desk) (id : Nat) (r : Request) (result : Except Fault Outcome) : Desk :=
  let inFlight := desk.inFlight.filter fun entry => !(entry.1 == r.key && entry.2 == id)
  { desk.setStage id (.returned result) with inFlight }

/-- A request resumes. -/
def resumeRequest (desk : Desk) (useResult : Bool) (id : Nat) (r : Request) : Desk :=
  match r.stage, r.isStopped, desk.documents.lookup r.document with
  | .settled result, _, _ => desk.returnResult id r result
  | .returned _, _, _ => desk
  | .ended job, true, some document =>
    if useResult then desk.finishWork id r.document document job
    else desk.settle id r.stoppedResult
  | _, true, _ => desk.settle id r.stoppedResult
  | .issued, false, some document => desk.beginWork id document
  | .ended job, false, some document => desk.finishWork id r.document document job
  | _, false, _ => desk

/-- The request whose turn it is resumes. -/
def resume (desk : Desk) (useResult : Bool) : Desk :=
  match desk.due with
  | [] => desk
  | id :: rest =>
    let desk := { desk with due := rest }
    match desk.requests[id]? with
    | some r => desk.resumeRequest useResult id r
    | none => desk

/-- The wait for the engine of a request is over. -/
def engineEnds (desk : Desk) (id : Nat) : Desk :=
  match desk.requests[id]? with
  | some ⟨_, _, .running job, false, _⟩ => (desk.setStage id (.ended job)).makeDue id
  | _ => desk

/-- The caller of a request gives up. -/
def abandon (desk : Desk) (id : Nat) : Desk :=
  match desk.requests[id]? with
  | some ⟨_, _, .settled _, _, _⟩ => desk.setStage id (.settled (.error .cancelled))
  | some _ => (desk.stop id).updateRequest id fun r => { r with isAbandoned := true }
  | none => desk

/-- A user edits a document. -/
def edit (desk : Desk) (name text : String) : Desk :=
  match desk.documents.lookup name with
  | none => desk
  | some document =>
    { desk with documents := Pairs.set name (document.edit text) desk.documents }

def step (desk : Desk) : DeskEvent → Desk
  | .issue document => desk.issue document
  | .resume useResult => desk.resume useResult
  | .engineEnds request => desk.engineEnds request
  | .abandon request => desk.abandon request
  | .refresh edition => { desk with formatter := desk.formatter.refresh edition }
  | .edit document text => desk.edit document text

/-- The desk after some events. -/
def run (desk : Desk) (events : List DeskEvent) : Desk := events.foldl step desk

/-- Let requests resume until none is due, at most `fuel` times. -/
def drainWith : Nat → Desk → Desk
  | 0, desk => desk
  | fuel + 1, desk => if desk.due.isEmpty then desk else drainWith fuel (desk.resume true)

/-- Let requests resume until none is due. Each resumes at most four times: to begin, to take
a result or to stop, and to return. -/
def drain (desk : Desk) : Desk := drainWith (4 * desk.requests.length + desk.due.length) desk

/-- The requests whose engines run, in order of their issue. -/
def runningWhere (desk : Desk) (p : Job → Bool) : List Nat :=
  (List.range desk.requests.length).filter fun id =>
    match desk.requests[id]?.map Request.stage with
    | some (.running job) => p job
    | _ => false

/-- Let the engines of some requests end, and all that follows from it. -/
def endWhere (desk : Desk) (p : Job → Bool) : Desk :=
  ((desk.runningWhere p).foldl engineEnds desk).drain

/-- An engine that ends of itself. -/
def endsAlone (job : Job) : Bool :=
  match job.launched.behaviour with
  | .ends _ => true
  | .hangs => false

/-- A request to come: its document, and the text that the document gets first. -/
structure Order where
  document : String
  text : Option String

def place (desk : Desk) (order : Order) : Desk :=
  let edited := order.text.elim desk (desk.edit order.document)
  edited.issue order.document

/-- Issue all requests before any of them begins, then let all of them end. -/
def runTogether (desk : Desk) (orders : List Order) : Desk :=
  ((orders.foldl place desk).drain).endWhere fun _ => true

/-- Issue each request when those before it have ended, or wait for an engine that hangs. -/
def runStaggered (desk : Desk) (orders : List Order) : Desk :=
  (orders.foldl (fun desk order => ((desk.place order).drain).endWhere endsAlone) desk).endWhere
    fun _ => true

/-- What the requests returned, in order of their issue. -/
def results (desk : Desk) : List (Except Fault Outcome) :=
  desk.requests.filterMap fun r =>
    match r.stage with
    | .returned result => some result
    | _ => none

end Desk

end MarkupTidy
