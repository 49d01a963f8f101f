import MarkupTidy.Log
import MarkupTidy.Override
import MarkupTidy.Settings.Basic

/-!
Base options of documents. What was found for a directory is kept until the settings change. A
call looks into what is kept, finds the options if need be, and keeps them if the settings are
still those it began with; between these three steps other calls may run.
-/
namespace MarkupTidy

/-- Base options, the override file they come from, and warnings for the user. -/
structure Resolved where
  options : OptionMap
  source : Option Path
  warnings : List String

/-- Settings as handed over once; the same settings handed over again are another edition. -/
structure Edition where
  identity : Nat
  settings : Settings

namespace Resolved

/-- Without an override file the settings' options stand. -/
def ofSettings (settings : Settings) : Resolved := ⟨settings.options, none, []⟩

/-- An override file that cannot be read, or holds no option map, is passed over. -/
def isPassedOver : Fault → Bool
  | .refused _ | .override .. => true
  | _ => false

def passedOverWarning (file : Path) : String := s!"options in file {file.name} not valid"

/-- The options in an override file. -/
def ofFile (host : Host) (settings : Settings) (file : Path) :
    Logged (Except Fault Resolved) :=
  let options := host.readText file >>= fun text => Override.parse text (some file.text)
  match options with
  | .ok options => do
    Logged.write .debug .resolver s!"Using tidy options from {file.text}"
    pure (.ok ⟨options, some file, []⟩)
  | .error fault =>
    if isPassedOver fault then do
      Logged.write .warning .resolver s!"Ignoring options file {file.text}: {fault.message}"
      pure (.ok ⟨settings.options, none, [passedOverWarning file]⟩)
    else pure (.error fault)

/-- Find the base options for documents in a directory, without regard to what is kept. -/
def find (host : Host) (settings : Settings) (directory : Option Path) :
    Logged (Except Fault Resolved) :=
  match settings.fileSearch, directory with
  | true, some directory =>
    match Override.find host directory settings.overrideName with
    | .error fault => pure (.error fault)
    | .ok none => pure (.ok (ofSettings settings))
    | .ok (some file) => ofFile host settings file
  | _, _ => pure (.ok (ofSettings settings))

end Resolved

structure Resolver where
  edition : Edition
  workspace : Option Path
  kept : List (Option Path × Resolved)

namespace Resolver

def ofSettings (edition : Edition) (workspace : Option Path) : Resolver := ⟨edition, workspace, []⟩

def settings (r : Resolver) : Settings := r.edition.settings

/-- Take over settings and forget what was found under earlier ones. -/
def refresh (r : Resolver) (edition : Edition) : Resolver := { r with edition, kept := [] }

/-- The directory whose override file counts for a document, or for none the workspace. -/
def directoryFor (host : Host) (r : Resolver) (document : Option Path) :
    Except Fault (Option Path) :=
  match document, r.workspace with
  | some document, _ => (host.resolve document).map fun path => some path.parent
  | none, some workspace => (host.resolve workspace).map some
  | none, none => .ok none

/-- What is kept for a directory, and the settings of this moment. -/
def look (r : Resolver) (directory : Option Path) : Option Resolved × Edition :=
  (r.kept.lookup directory, r.edition)

/-- Keep what was found under an edition of the settings, if it is still the present one. -/
def keep (r : Resolver) (edition : Edition) (directory : Option Path) (resolved : Resolved) :
    Resolver :=
  if r.edition.identity = edition.identity then
    { r with kept := Pairs.set directory resolved r.kept }
  else r

/-- The base options for documents in a directory, from what is kept if possible. -/
def optionsIn (host : Host) (r : Resolver) (directory : Option Path) :
    Logged (Except Fault Resolved × Resolver) :=
  match r.look directory with
  | (some resolved, _) => pure (.ok resolved, r)
  | (none, edition) => do
    match ← Resolved.find host edition.settings directory with
    | .ok resolved => pure (.ok resolved, r.keep edition directory resolved)
    | .error fault => pure (.error fault, r)

/-- The base options for a document. -/
def optionsFor (host : Host) (r : Resolver) (document : Option Path) :
    Logged (Except Fault Resolved × Resolver) :=
  match r.directoryFor host document with
  | .error fault => pure (.error fault, r)
  | .ok directory => r.optionsIn host directory

theorem edition_optionsFor (host : Host) (r : Resolver) (document : Option Path) :
    (r.optionsFor host document).value.2.edition = r.edition := by
  unfold optionsFor
  split
  · rfl
  · unfold optionsIn
    split
    · rfl
    · simp only [Logged.value_bind]
      split
      · simp only [Logged.value_pure, keep]
        split <;> rfl
      · rfl

end Resolver

end MarkupTidy
