import MarkupTidy.Proofs.CommandLine.Joined
import MarkupTidy.Proofs.Formatter.Reads

/-!
One file formatted in place, and to be printed. Where the hosts differ in nothing that is read for
the file, it comes to the same end on both, and if it is formatted it gets the text that is printed.
-/
namespace MarkupTidy.CommandLine

open Formatter

/-- A file comes to the same end in a run that prints and in a run in place. -/
inductive Turn.EndsAlike (printed inPlace : Turn) : Prop
  | missing (hprinted : printed.host.exists? printed.path = .ok false)
    (hinPlace : inPlace.host.exists? inPlace.path = .ok false)
  | unreadable (fault : Fault) (hunreadable : isUnreadable fault = true)
    (hprinted : printed.host.readText printed.path = .error fault)
    (hinPlace : (inPlace.formatter.format inPlace.host (.file inPlace.path)).value.1.1 =
      .ok (.failed [s!"cannot read document: {fault.message}"]))
  | raised (fault : Fault)
    (hprinted : (formatFile false printed.host printed.formatter printed.path).success =
      .error fault)
    (hinPlace : (formatFile true inPlace.host inPlace.formatter inPlace.path).success =
      .error fault)
  | ended (text : String) (outcome : Outcome)
    (hread : printed.host.readText printed.path = .ok text)
    (hprinted : (printed.formatter.format printed.host
      (.buffer text (some printed.path) false)).value.1.1 = .ok outcome)
    (hinPlace : (inPlace.formatter.format inPlace.host (.file inPlace.path)).value.1.1 =
      .ok outcome)

/-- The file is formatted in place when its turn comes. -/
def Turn.isFormatted (turn : Turn) : Bool :=
  isApplied (turn.formatter.format turn.host (.file turn.path)).value.1.1

/-- The work on a file in place, beside that to print it: it comes to the same, and if it is
formatted the file gets what is printed. -/
structure TurnAgrees (host host' : Host) (f : Formatter) (path : Path) : Prop where
  success : (formatFile true host' f path).success = (formatFile false host f path).success
  formatter : (formatFile true host' f path).formatter = (formatFile false host f path).formatter
  ends : Turn.EndsAlike ⟨path, host, f⟩ ⟨path, host', f⟩
  changes : (Turn.isFormatted ⟨path, host', f⟩ = false ∧
      (formatFile false host f path).shown.printed = "" ∧
      (formatFile true host' f path).host = host') ∨
    ∃ place file, Turn.isFormatted ⟨path, host', f⟩ = true ∧
      host'.stat path.text = .ok (place, .file file) ∧ file.isReadable = true ∧
      (formatFile true host' f path).host = host'.withTree (host'.tree.set place
        (.file ⟨Text.Utf8.encode (formatFile false host f path).shown.printed.toList, file.mode,
          none⟩))

theorem readable_of_readText {host : Host} {path : Path} {text : String} {place : Location}
    {file : File} (hread : host.readText path = .ok text)
    (hstat : host.stat path.text = .ok (place, .file file)) : file.isReadable = true := by
  rw [← Bool.not_eq_false]
  intro hclosed
  simp only [Host.readText, Host.readOctets, hstat, hclosed] at hread
  cases hread

/-- A document that cannot be read comes to a failure, or to a fault. -/
theorem value_format_of_unread {host : Host} {path : Path} {fault : Fault}
    (h : host.readText path = .error fault) (f : Formatter) :
    (f.format host (.file path)).value =
      ((if isUnreadable fault then .ok (.failed [s!"cannot read document: {fault.message}"])
        else .error fault, ⟨host, .file path⟩), f) := by
  simp only [format, beginRequest, readDocument, Document.text, h, Logged.value_bind]
  cases isUnreadable fault <;> rfl

theorem Turn.isFormatted_of_unread {host : Host} {path : Path} {fault : Fault}
    (h : host.readText path = .error fault) (f : Formatter) :
    Turn.isFormatted ⟨path, host, f⟩ = false := by
  unfold Turn.isFormatted
  dsimp only
  rw [value_format_of_unread h f]
  cases isUnreadable fault <;> rfl

/-! What is printed for a document with and without a new text. -/

theorem printedOf_of_unapplied {finished : Finished} (h : isApplied finished.1 = false) :
    printedOf finished = "" := by
  obtain ⟨result, changed⟩ := finished
  cases result with
  | error fault => rfl
  | ok outcome =>
    have hnot : outcome.isApplied = false := h
    dsimp only [printedOf]
    cases changed.document with
    | buffer text path refuses => simp only [printedText, hnot, Bool.false_eq_true, if_false]
    | file path => rfl

theorem printedOf_of_applied {finished : Finished} (h : isApplied finished.1 = true)
    {text : String} {path : Option Path} {refuses : Bool}
    (hdocument : finished.2.document = .buffer text path refuses) : printedOf finished = text := by
  obtain ⟨result, changed⟩ := finished
  cases result with
  | error fault => cases h
  | ok outcome =>
    have hyes : outcome.isApplied = true := h
    dsimp only at hdocument
    simp only [printedOf, hdocument, printedText, hyes, if_true]

section Differing

variable {changed : Location → Prop} {host host' : Host} {edition : Edition} {f : Formatter}
  {path : Path}

/-- A file that cannot be looked for, or is not there, is not worked on. -/
theorem turnAgrees_of_absent (h : DiffersAt changed host host') {fault : Fault}
    (hread' : host'.readText path = .error fault) (habsent : host.exists? path ≠ .ok true) :
    TurnAgrees host host' f path := by
  have hthere := h.exists?_eq path
  have hunformatted := Turn.isFormatted_of_unread hread' f
  cases hexists : host.exists? path with
  | error other =>
    have hprinted : formatFile false host f path = brokenOff host f other := by
      rw [formatFile, ifPresent, hexists]
    have hinPlace : formatFile true host' f path = brokenOff host' f other := by
      rw [formatFile, ifPresent, hthere, hexists]
    refine ⟨?_, ?_, .raised other ?_ ?_, Or.inl ⟨hunformatted, ?_, ?_⟩⟩ <;>
      simp only [hprinted, hinPlace] <;> rfl
  | ok there =>
    obtain rfl : there = false := by
      rw [← Bool.not_eq_true]
      rintro rfl
      exact habsent hexists
    rw [hexists] at hthere
    have hprinted : formatFile false host f path =
        notDone host f s!"File not found: {path.text}" := by
      rw [formatFile, ifPresent, hexists]
    have hinPlace : formatFile true host' f path =
        notDone host' f s!"File not found: {path.text}" := by
      rw [formatFile, ifPresent, hthere]
    refine ⟨?_, ?_, .missing hexists hthere, Or.inl ⟨hunformatted, ?_, ?_⟩⟩ <;>
      simp only [hprinted, hinPlace] <;> rfl

/-- A file that is there and cannot be read is met by the command in one run, and by the request in
the other. -/
theorem turnAgrees_of_unread (h : DiffersAt changed host host') {fault : Fault}
    (hread : host.readText path = .error fault) (hread' : host'.readText path = .error fault)
    (hexists : host.exists? path = .ok true) : TurnAgrees host host' f path := by
  have hthere := h.exists?_eq path
  rw [hexists] at hthere
  have hformat := value_format_of_unread hread' f
  have hunformatted := Turn.isFormatted_of_unread hread' f
  have hinPlace : formatFile true host' f path = formatDocument host' f path (.file path) := by
    rw [formatFile, ifPresent, hthere]
    rfl
  have hprinted : formatFile false host f path =
      if isUnreadable fault then notDone host f s!"Cannot read {path.text}: {fault.message}"
      else brokenOff host f fault := by
    rw [formatFile, ifPresent, hexists]
    simp only [Bool.false_eq_true, if_false, onText, hread]
  cases hunreadable : isUnreadable fault with
  | true =>
    rw [hunreadable] at hformat hprinted
    refine ⟨?_, ?_, .unreadable fault hunreadable hread (by rw [hformat]; rfl),
      Or.inl ⟨hunformatted, ?_, ?_⟩⟩ <;>
      simp only [hprinted, hinPlace, formatDocument, hformat] <;> rfl
  | false =>
    rw [hunreadable] at hformat hprinted
    refine ⟨?_, ?_, .raised fault ?_ ?_, Or.inl ⟨hunformatted, ?_, ?_⟩⟩ <;>
      simp only [hprinted, hinPlace, formatDocument, hformat] <;> rfl

theorem turnAgrees_of_read (h : DiffersAt changed host host')
    (hf : IsCurrent (· = host) edition f)
    (hkept : ∀ place, Reads host edition.settings path place → ¬ changed place)
    (hname : NamesNoLink host' path) (hwrites : WritesDone host' f path) {text : String}
    (hread : host.readText path = .ok text) : TurnAgrees host host' f path := by
  have hread' : host'.readText path = .ok text := by
    rw [h.readText_eq fun place hleads => hkept place (.document hleads), hread]
  have hprinted : formatFile false host f path =
      formatDocument host f path (.buffer text (some path) false) := by
    rw [formatFile, ifPresent, exists?_of_readText hread]
    simp only [Bool.false_eq_true, if_false, onText, hread]
  have hinPlace : formatFile true host' f path = formatDocument host' f path (.file path) := by
    rw [formatFile, ifPresent, exists?_of_readText hread']
    rfl
  have halike := format_alike h hf hkept hname.anchored hname.linkFree hwrites hread
  have hresult : (f.format host' (.file path)).value.1.1 =
      (f.format host (.buffer text (some path) false)).value.1.1 := by
    cases halike with
    | kept hresult hunapplied hhost => exact hresult
    | written hresult happlied hbuffer hstat hhost => exact hresult
  constructor
  · rw [hinPlace, hprinted, success_formatDocument, success_formatDocument, hresult]
  · rw [hinPlace, hprinted, formatter_formatDocument, formatter_formatDocument, formatter_format,
      formatter_format, beginRequest_eq h hf hkept hread]
  · cases hend : (f.format host (.buffer text (some path) false)).value.1.1 with
    | ok outcome => exact .ended text outcome hread hend (hresult.trans hend)
    | error fault =>
      apply Turn.EndsAlike.raised fault
      · rw [hprinted, success_formatDocument, hend]
        rfl
      · rw [hinPlace, success_formatDocument, hresult, hend]
        rfl
  · unfold Turn.isFormatted
    rw [hprinted, hinPlace, host_formatDocument, printed_formatDocument]
    dsimp only
    rw [hresult]
    cases halike with
    | kept _ hunapplied hhost =>
      exact Or.inl ⟨hunapplied, printedOf_of_unapplied hunapplied, hhost⟩
    | written _ happlied hbuffer hstat hhost =>
      refine Or.inr ⟨_, _, happlied, hstat, readable_of_readText hread' hstat, ?_⟩
      rw [hhost, printedOf_of_applied happlied hbuffer]

/-- Nothing that is read for the file is among what differs: then its turn in place agrees with its
turn to be printed. -/
theorem turnAgrees (h : DiffersAt changed host host') (hf : IsCurrent (· = host) edition f)
    (hkept : ∀ place, Reads host edition.settings path place → ¬ changed place)
    (hname : NamesNoLink host' path) (hwrites : WritesDone host' f path) :
    TurnAgrees host host' f path := by
  cases hread : host.readText path with
  | ok text => exact turnAgrees_of_read h hf hkept hname hwrites hread
  | error fault =>
    have hread' : host'.readText path = .error fault := by
      rw [h.readText_eq fun place hleads => hkept place (.document hleads), hread]
    by_cases hexists : host.exists? path = .ok true
    · exact turnAgrees_of_unread h hread hread' hexists
    · exact turnAgrees_of_absent h hread' hexists

end Differing

end MarkupTidy.CommandLine
