import MarkupTidy.CommandLine.Run
import MarkupTidy.Proofs.Formatter.Prepared

/-!
The turns of a command on files. Each file is worked on with the formatter and on the host that the
files before it have left, until all of them have had their turn or one has broken the work off.
-/
namespace MarkupTidy.CommandLine

open Formatter

/-- The formatter with which a command on files begins. -/
def newFormatter (settings : Settings) (workspace : Path) : Formatter :=
  .ofSettings ⟨0, settings⟩ (some workspace)

theorem isCurrent_newFormatter (met : Host → Prop) (settings : Settings) (workspace : Path) :
    IsCurrent met ⟨0, settings⟩ (newFormatter settings workspace) :=
  ⟨rfl, fun _ hlookup => (Option.some_ne_none _ hlookup.symm).elim,
    fun _ hentry => (List.not_mem_nil hentry).elim⟩

/-- A file with the host and the formatter that its turn finds. -/
structure Turn where
  path : Path
  host : Host
  formatter : Formatter

/-- The turns that files come to, in order. -/
def turns (work : Host → Formatter → Path → Work) (host : Host) (formatter : Formatter) :
    List Path → List Turn
  | [] => []
  | path :: rest =>
    let first := work host formatter path
    ⟨path, host, formatter⟩ ::
      match first.success with
      | .error _ => []
      | .ok _ => turns work first.host first.formatter rest

theorem turns_cons_of_ok {work : Host → Formatter → Path → Work} {host : Host} {f : Formatter}
    {path : Path} {success : Bool} (h : (work host f path).success = .ok success)
    (rest : List Path) :
    turns work host f (path :: rest) =
      ⟨path, host, f⟩ :: turns work (work host f path).host (work host f path).formatter rest := by
  simp only [turns, h]

theorem turns_cons_of_error {work : Host → Formatter → Path → Work} {host : Host} {f : Formatter}
    {path : Path} {fault : Fault} (h : (work host f path).success = .error fault)
    (rest : List Path) : turns work host f (path :: rest) = [⟨path, host, f⟩] := by
  simp only [turns, h]

/-- The work on files succeeds if that on each of them does. -/
theorem success_onFiles_cons (work : Host → Formatter → Path → Work) (host : Host)
    (f : Formatter) (path : Path) (rest : List Path) :
    (onFiles work host f (path :: rest)).success = .ok true ↔
      (work host f path).success = .ok true ∧
        (onFiles work (work host f path).host (work host f path).formatter rest).success =
          .ok true := by
  rw [onFiles]
  cases hfirst : (work host f path).success with
  | error fault => simp [hfirst]
  | ok success =>
    cases hothers : (onFiles work (work host f path).host (work host f path).formatter
      rest).success <;> simp [hothers, Except.map]

theorem host_onFiles_cons (work : Host → Formatter → Path → Work) (host : Host)
    (f : Formatter) (path : Path) (rest : List Path) :
    (onFiles work host f (path :: rest)).host =
      match (work host f path).success with
      | .error _ => (work host f path).host
      | .ok _ => (onFiles work (work host f path).host (work host f path).formatter rest).host := by
  rw [onFiles]
  cases (work host f path).success <;> rfl

/-- Work that leaves the host as it is does so for all files. -/
theorem host_onFiles_of_kept {work : Host → Formatter → Path → Work}
    (hkept : ∀ host f path, (work host f path).host = host) (host : Host) (f : Formatter)
    (files : List Path) : (onFiles work host f files).host = host := by
  induction files generalizing f with
  | nil => rfl
  | cons path rest ih =>
    rw [host_onFiles_cons, hkept]
    split
    · rfl
    · exact ih _

/-- Linting leaves the host as it is, and in the formatter only what a request leaves there. -/
theorem lintFile_keeps (host : Host) (f : Formatter) (path : Path) :
    (lintFile host f path).host = host ∧
      Leaves host f (some path) (lintFile host f path).formatter := by
  unfold lintFile ifPresent
  cases host.exists? path with
  | error fault => exact ⟨rfl, .untouched⟩
  | ok there =>
    cases there with
    | false => exact ⟨rfl, .untouched⟩
    | true =>
      unfold onText
      cases host.readText path with
      | error fault =>
        dsimp only
        split <;> exact ⟨rfl, .untouched⟩
      | ok text =>
        have hleaves := (beginLint_prepare host f (.buffer text (some path) false)).2
        simp only [lintDocument, value_lint]
        split <;> exact ⟨rfl, hleaves⟩

end MarkupTidy.CommandLine
