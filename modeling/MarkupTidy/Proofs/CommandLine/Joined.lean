import MarkupTidy.Proofs.CommandLine.LintExit
import MarkupTidy.Proofs.CommandLine.Rewritten
import MarkupTidy.Proofs.Formatter.Silent

/-!
Formatting files to be printed, list by list. All files of a run share one formatter, which keeps
the engine and the options that it found; on a host that stays as it is, this changes nothing but
messages. So a run on two lists prints what the runs on each of them print, and each file is printed
as if it were alone.
-/
namespace MarkupTidy

namespace Formatter

theorem formatter_format (host : Host) (f : Formatter) (document : Document) :
    (f.format host document).value.2 = (f.beginRequest host document).value.2 := by
  simp only [format, Logged.value_bind]
  generalize (f.beginRequest host document).value = begun
  obtain ⟨begun, f'⟩ := begun
  cases begun <;> rfl

/-- No request that goes on without a break gives up for a newer one. -/
theorem staysInPlace_format (host : Host) (f : Formatter) (document : Document) :
    StaysInPlace (f.format host document).value.1.1 := by
  have hbegun := endsInPlace_beginRequest host f document
  rw [value_format_beginRequest]
  cases hbegin : (f.beginRequest host document).value.1 with
  | settled outcome =>
    rw [hbegin] at hbegun
    exact hbegun _ rfl
  | raised fault => exact StaysInPlace.error fault
  | running job => exact staysInPlace_finishRequest host job document

end Formatter

namespace CommandLine

open Formatter

/-- The work came to its end. -/
def Work.Returns (work : Work) : Prop := ∃ success, work.success = .ok success

/-- Both come to the same end and print the same. -/
structure Work.Agrees (a b : Work) : Prop where
  success : a.success = b.success
  printed : a.shown.printed = b.shown.printed

/-- Work with what came of the work before it. -/
def Work.behind (others : Work) (success : Bool) (shown : Shown) : Work :=
  { others with
    success := others.success.map (success && ·)
    shown := shown ++ others.shown }

/-- Work that goes on where some has come to its end. -/
def Work.andThen (first : Work) (next : Host → Formatter → Work) : Work :=
  match first.success with
  | .error _ => first
  | .ok success => (next first.host first.formatter).behind success first.shown

theorem onFiles_cons (work : Host → Formatter → Path → Work) (host : Host) (f : Formatter)
    (path : Path) (rest : List Path) :
    onFiles work host f (path :: rest) =
      (work host f path).andThen fun host f => onFiles work host f rest := rfl

namespace Work

variable {first a b : Work} {next next' : Host → Formatter → Work}

theorem behind_nothing (others : Work) : others.behind true .nothing = others := by
  obtain ⟨success, ⟨printed, console, records⟩, formatter, host⟩ := others
  have hshown : Shown.nothing ++ ⟨printed, console, records⟩ = ⟨printed, console, records⟩ := by
    show Shown.append _ _ = _
    simp [Shown.append, Shown.nothing]
  unfold behind
  rw [hshown]
  cases success <;> rfl

theorem behind_behind (others : Work) (success success' : Bool) (shown shown' : Shown) :
    (others.behind success' shown').behind success shown =
      others.behind (success && success') (shown ++ shown') := by
  have hshown : shown ++ (shown' ++ others.shown) = shown ++ shown' ++ others.shown := by
    show Shown.append _ (Shown.append _ _) = Shown.append (Shown.append _ _) _
    simp [Shown.append, String.append_assoc]
  unfold behind
  rw [hshown]
  cases others.success with
  | error fault => rfl
  | ok other => simp [Except.map, Bool.and_assoc]

theorem andThen_error {fault : Fault} (h : first.success = .error fault) :
    first.andThen next = first := by
  simp only [andThen, h]

theorem andThen_ok {success : Bool} (h : first.success = .ok success) :
    first.andThen next = (next first.host first.formatter).behind success first.shown := by
  simp only [andThen, h]

theorem andThen_assoc (last : Host → Formatter → Work) :
    (first.andThen next).andThen last =
      first.andThen fun host f => (next host f).andThen last := by
  cases hfirst : first.success with
  | error fault => rw [andThen_error hfirst, andThen_error hfirst, andThen_error hfirst]
  | ok success =>
    rw [andThen_ok hfirst, andThen_ok hfirst]
    cases hnext : (next first.host first.formatter).success with
    | error fault =>
      have hbehind : ((next first.host first.formatter).behind success first.shown).success =
          .error fault := by simp only [behind, hnext, Except.map]
      rw [andThen_error hnext, andThen_error hbehind]
    | ok other =>
      have hbehind : ((next first.host first.formatter).behind success first.shown).success =
          .ok (success && other) := by simp only [behind, hnext, Except.map]
      rw [andThen_ok hnext, andThen_ok hbehind, behind_behind]
      rfl

theorem success_andThen_iff :
    (first.andThen next).success = .ok true ↔
      first.success = .ok true ∧ (next first.host first.formatter).success = .ok true := by
  cases hfirst : first.success with
  | error fault => simp [andThen_error hfirst, hfirst]
  | ok success =>
    rw [andThen_ok hfirst, behind]
    cases (next first.host first.formatter).success <;> simp [Except.map]

theorem returns_andThen_iff :
    (first.andThen next).Returns ↔ first.Returns ∧ (next first.host first.formatter).Returns := by
  unfold Returns
  cases hfirst : first.success with
  | error fault => simp [andThen_error hfirst, hfirst]
  | ok success =>
    rw [andThen_ok hfirst, behind]
    cases (next first.host first.formatter).success <;> simp [Except.map]

theorem printed_andThen (h : first.Returns) :
    (first.andThen next).shown.printed =
      first.shown.printed ++ (next first.host first.formatter).shown.printed := by
  obtain ⟨success, hsuccess⟩ := h
  rw [andThen_ok hsuccess]
  rfl

theorem Agrees.returns_iff (h : a.Agrees b) : a.Returns ↔ b.Returns := by
  unfold Returns
  rw [h.success]

/-- Work agrees if its parts do. -/
theorem Agrees.andThen (h : a.Agrees b)
    (hnext : (next a.host a.formatter).Agrees (next' b.host b.formatter)) :
    (a.andThen next).Agrees (b.andThen next') := by
  cases hfirst : a.success with
  | error fault =>
    rw [andThen_error hfirst, andThen_error (h.success.symm.trans hfirst)]
    exact h
  | ok success =>
    have hreturns : a.Returns := ⟨success, hfirst⟩
    constructor
    · rw [andThen_ok hfirst, andThen_ok (h.success.symm.trans hfirst), behind, behind,
        hnext.success]
    · rw [printed_andThen hreturns, printed_andThen (h.returns_iff.1 hreturns), h.printed,
        hnext.printed]

end Work

/-- Files in two lists are worked on as those in one list and then those in the other. -/
theorem onFiles_append (work : Host → Formatter → Path → Work) (host : Host) (f : Formatter)
    (first second : List Path) :
    onFiles work host f (first ++ second) =
      (onFiles work host f first).andThen fun host f => onFiles work host f second := by
  induction first generalizing host f with
  | nil => exact (Work.behind_nothing _).symm
  | cons path rest ih =>
    rw [List.cons_append, onFiles_cons, onFiles_cons, Work.andThen_assoc]
    congr
    funext host f
    exact ih host f

/-! Files that are formatted to be printed. -/

/-- A file is there and can be read, and its request ends as formatted or skipped. -/
def EndsWell (host : Host) (f : Formatter) (path : Path) : Prop :=
  ∃ text outcome, host.readText path = .ok text ∧
    (f.format host (.buffer text (some path) false)).value.1.1 = .ok outcome ∧
    (outcome.status = .formatted ∨ outcome.status = .skipped)

theorem formatter_formatDocument (host : Host) (f : Formatter) (path : Path)
    (document : Document) :
    (formatDocument host f path document).formatter = (f.format host document).value.2 := by
  simp only [formatDocument]
  cases (f.format host document).value.1.1 <;> rfl

/-- What is printed for a document by what became of it. -/
def printedOf (finished : Finished) : String :=
  match finished.1 with
  | .error _ => ""
  | .ok outcome => printedText outcome finished.2.document

theorem success_formatDocument (host : Host) (f : Formatter) (path : Path) (document : Document) :
    (formatDocument host f path document).success =
      (f.format host document).value.1.1.map isSuccess := by
  simp only [formatDocument]
  cases (f.format host document).value.1.1 <;> rfl

theorem printed_formatDocument (host : Host) (f : Formatter) (path : Path) (document : Document) :
    (formatDocument host f path document).shown.printed =
      printedOf (f.format host document).value.1 := by
  simp only [formatDocument, printedOf]
  cases (f.format host document).value.1.1 <;> rfl

/-- Messages make no difference to what is printed, and to the exit code. -/
theorem formatDocument_silent (host : Host) (f : Formatter) (path : Path) (document : Document) :
    (formatDocument host f path document).success =
        (Finished.silent (f.format host document).value.1).1.map isSuccess ∧
      (formatDocument host f path document).shown.printed =
        printedOf (Finished.silent (f.format host document).value.1) := by
  rw [success_formatDocument, printed_formatDocument]
  simp only [Finished.silent, printedOf]
  cases (f.format host document).value.1.1 <;> exact ⟨rfl, rfl⟩

/-- What a file leaves in the formatter was found for it, or before. -/
theorem formatFile_leaves (inPlace : Bool) (host : Host) (f : Formatter) (path : Path) :
    Leaves host f (some path) (formatFile inPlace host f path).formatter := by
  have hdocument : ∀ document : Document, document.path? = some path →
      Leaves host f (some path) (formatDocument host f path document).formatter := by
    intro document hpath
    rw [formatter_formatDocument, formatter_format, ← hpath]
    exact (beginRequest_prepare host f document).2
  unfold formatFile ifPresent
  cases host.exists? path with
  | error fault => exact .untouched
  | ok there =>
    cases there with
    | false => exact .untouched
    | true =>
      dsimp only
      split
      · exact hdocument _ rfl
      · unfold onText
        cases host.readText path with
        | ok text => exact hdocument _ rfl
        | error fault =>
          dsimp only
          split <;> exact .untouched

section Current

variable {host : Host} {edition : Edition} {f g : Formatter}

/-- What a formatter found before makes no difference to the text that is printed. -/
theorem formatFile_agrees (hf : IsCurrent (· = host) edition f)
    (hg : IsCurrent (· = host) edition g) (path : Path) :
    (formatFile false host f path).Agrees (formatFile false host g path) := by
  unfold formatFile ifPresent
  cases host.exists? path with
  | error fault => exact ⟨rfl, rfl⟩
  | ok there =>
    cases there with
    | false => exact ⟨rfl, rfl⟩
    | true =>
      simp only [Bool.false_eq_true, if_false]
      unfold onText
      cases host.readText path with
      | error fault =>
        dsimp only
        split <;> exact ⟨rfl, rfl⟩
      | ok text =>
        have hdocument : (Document.buffer text (some path) false).path? = some path := rfl
        obtain ⟨hsuccess, hprinted⟩ := formatDocument_silent host f path (.buffer text path false)
        obtain ⟨hsuccess', hprinted'⟩ := formatDocument_silent host g path (.buffer text path false)
        have hsilent := hf.silent_format hg hdocument
        rw [← hsilent] at hsuccess' hprinted'
        exact ⟨hsuccess.trans hsuccess'.symm, hprinted.trans hprinted'.symm⟩

theorem current_onFiles (hf : IsCurrent (· = host) edition f) (files : List Path) :
    IsCurrent (· = host) edition (onFiles (formatFile false) host f files).formatter := by
  induction files generalizing f with
  | nil => exact hf
  | cons path rest ih =>
    have hfirst : IsCurrent (· = host) edition (formatFile false host f path).formatter :=
      hf.leaves rfl (formatFile_leaves false host f path)
    rw [onFiles_cons]
    cases hsuccess : (formatFile false host f path).success with
    | error fault =>
      rw [Work.andThen_error hsuccess]
      exact hfirst
    | ok success =>
      rw [Work.andThen_ok hsuccess, host_formatFile_printed]
      exact ih hfirst

theorem onFiles_agrees (hf : IsCurrent (· = host) edition f)
    (hg : IsCurrent (· = host) edition g) (files : List Path) :
    (onFiles (formatFile false) host f files).Agrees (onFiles (formatFile false) host g files) := by
  induction files generalizing f g with
  | nil => exact ⟨rfl, rfl⟩
  | cons path rest ih =>
    rw [onFiles_cons, onFiles_cons]
    apply (formatFile_agrees hf hg path).andThen
    rw [host_formatFile_printed, host_formatFile_printed]
    exact ih (hf.leaves rfl (formatFile_leaves false host f path))
      (hg.leaves rfl (formatFile_leaves false host g path))

/-- Files behind others are printed as if those had not been there. -/
theorem onFiles_behind (hf : IsCurrent (· = host) edition f) (first second : List Path) :
    (onFiles (formatFile false) host
      (onFiles (formatFile false) host f first).formatter second).Agrees
      (onFiles (formatFile false) host f second) :=
  onFiles_agrees (current_onFiles hf first) hf second

theorem success_formatFile_iff (host : Host) (f : Formatter) (path : Path) :
    (formatFile false host f path).success = .ok true ↔ EndsWell host f path := by
  unfold formatFile ifPresent
  cases hread : host.readText path with
  | error fault =>
    have hnot : ¬ EndsWell host f path := by simp [EndsWell, hread]
    simp only [hnot, iff_false]
    cases host.exists? path with
    | error fault => simp [brokenOff]
    | ok there =>
      cases there with
      | false => simp [notDone]
      | true =>
        simp only [Bool.false_eq_true, if_false, onText, hread]
        cases isUnreadable fault <;> simp [notDone, brokenOff]
  | ok text =>
    have hstays := staysInPlace_format host f (.buffer text (some path) false)
    rw [exists?_of_readText hread]
    simp only [Bool.false_eq_true, if_false, onText, hread, EndsWell, Except.ok.injEq,
      exists_and_left, exists_eq_left']
    simp only [formatDocument]
    cases hresult : (f.format host (.buffer text (some path) false)).value.1.1 with
    | error fault => simp
    | ok outcome =>
      have hplace := hstays outcome hresult
      simp only [Except.ok.injEq, exists_eq_left', isSuccess]
      cases hstatus : outcome.status <;> simp [hstatus] at hplace ⊢

/-- The work on files succeeds exactly if each of them would alone. -/
theorem success_onFiles_iff (hf : IsCurrent (· = host) edition f)
    (hg : IsCurrent (· = host) edition g) (files : List Path) :
    (onFiles (formatFile false) host f files).success = .ok true ↔
      ∀ path ∈ files, EndsWell host g path := by
  induction files generalizing f with
  | nil => simp [onFiles]
  | cons path rest ih =>
    have hothers := ih (hf.leaves rfl (formatFile_leaves false host f path))
    have hfirst := success_formatFile_iff host g path
    rw [← (formatFile_agrees hf hg path).success] at hfirst
    rw [onFiles_cons, Work.success_andThen_iff, host_formatFile_printed, hfirst, hothers,
      List.forall_mem_cons]

/-- Each file is printed as it would be alone. -/
theorem printed_onFiles (hf : IsCurrent (· = host) edition f)
    (hg : IsCurrent (· = host) edition g) {files : List Path}
    (h : (onFiles (formatFile false) host f files).Returns) :
    (onFiles (formatFile false) host f files).shown.printed =
      String.join (files.map fun path => (formatFile false host g path).shown.printed) := by
  induction files generalizing f with
  | nil => rfl
  | cons path rest ih =>
    rw [onFiles_cons] at h ⊢
    obtain ⟨hfirst, hrest⟩ := Work.returns_andThen_iff.1 h
    rw [host_formatFile_printed] at hrest
    have hothers := ih (hf.leaves rfl (formatFile_leaves false host f path)) hrest
    rw [Work.printed_andThen hfirst, host_formatFile_printed, hothers,
      (formatFile_agrees hf hg path).printed, List.map_cons, String.join_cons]

end Current

/-! Runs of the command. -/

/-- The run ends with an exit code. -/
def Finish.Returns (finish : Finish) : Prop := ∃ code, finish.exit = .ok code

/-- A run on two lists of files ends and prints as the runs on each of them do. -/
structure Finish.Joins (first second joined : Finish) : Prop where
  returns : joined.Returns ↔ first.Returns ∧ second.Returns
  printed : joined.Returns → joined.shown.printed = first.shown.printed ++ second.shown.printed
  succeeds : joined.exit = .ok 0 ↔ first.exit = .ok 0 ∧ second.exit = .ok 0

theorem returns_finishWork_iff (work : Work) : (finishWork work).Returns ↔ work.Returns := by
  unfold Finish.Returns Work.Returns finishWork
  cases work.success <;> simp [Except.map]

/-- Runs that do not get to their files end alike, and print nothing. -/
theorem Finish.Joins.of_same {finish : Finish} (h : finish.shown.printed = "") :
    finish.Joins finish finish := by
  refine ⟨(and_self_iff).symm, fun _ => ?_, (and_self_iff).symm⟩
  rw [h]
  rfl

/-- A run breaks off on two lists of files where it breaks off on one of them. -/
theorem Finish.Joins.of_broken {first second joined : Finish} (hjoined : ¬ joined.Returns)
    (h : ¬ (first.Returns ∧ second.Returns)) : first.Joins second joined := by
  refine ⟨iff_of_false hjoined h, fun hreturns => absurd hreturns hjoined, ?_⟩
  apply iff_of_false
  · intro hcode
    exact hjoined ⟨0, hcode⟩
  · rintro ⟨hfirst, hsecond⟩
    exact h ⟨⟨0, hfirst⟩, ⟨0, hsecond⟩⟩

theorem not_returns_breakOff (host : Host) (fault : Fault) : ¬ (breakOff host fault).Returns := by
  rintro ⟨code, hcode⟩
  cases hcode

theorem printed_refuseSettings (host : Host) (fault : Fault) :
    (refuseSettings host fault).shown.printed = "" := by
  cases fault <;> rfl

theorem joins_onFiles {host : Host} {edition : Edition} {f : Formatter}
    (hf : IsCurrent (· = host) edition f) (first second : List Path) :
    (finishWork (onFiles (formatFile false) host f first)).Joins
      (finishWork (onFiles (formatFile false) host f second))
      (finishWork (onFiles (formatFile false) host f (first ++ second))) := by
  have hbehind := onFiles_behind hf first second
  have hhost := host_onFiles_of_kept host_formatFile_printed host f first
  have hreturns : (onFiles (formatFile false) host f (first ++ second)).Returns ↔
      (onFiles (formatFile false) host f first).Returns ∧
        (onFiles (formatFile false) host f second).Returns := by
    rw [onFiles_append, Work.returns_andThen_iff, hhost, hbehind.returns_iff]
  constructor
  · rw [returns_finishWork_iff, returns_finishWork_iff, returns_finishWork_iff]
    exact hreturns
  · intro hjoined
    have hfirst := (hreturns.1 ((returns_finishWork_iff _).1 hjoined)).1
    show (onFiles (formatFile false) host f (first ++ second)).shown.printed =
      (onFiles (formatFile false) host f first).shown.printed ++
        (onFiles (formatFile false) host f second).shown.printed
    rw [onFiles_append, Work.printed_andThen hfirst, hhost, hbehind.printed]
  · rw [exit_finishWork_iff, exit_finishWork_iff, exit_finishWork_iff, onFiles_append,
      Work.success_andThen_iff, hhost, hbehind.success]

theorem joins_runOnFiles (host : Host) (workspace : Path) (override : Settings → Settings)
    (first second : List Path) :
    (runOnFiles host workspace override first (formatFile false)).Joins
      (runOnFiles host workspace override second (formatFile false))
      (runOnFiles host workspace override (first ++ second) (formatFile false)) := by
  unfold runOnFiles
  cases Settings.load host workspace with
  | error fault => exact Finish.Joins.of_same (printed_refuseSettings host fault)
  | ok settings =>
    have hnew := isCurrent_newFormatter (· = host) (override settings) workspace
    dsimp only
    rw [List.mapM_append]
    cases hfirst : first.mapM host.resolve with
    | error fault =>
      apply Finish.Joins.of_broken (not_returns_breakOff host fault)
      intro hboth
      exact not_returns_breakOff host fault hboth.1
    | ok resolved =>
      cases hsecond : second.mapM host.resolve with
      | error fault =>
        apply Finish.Joins.of_broken (not_returns_breakOff host fault)
        intro hboth
        exact not_returns_breakOff host fault hboth.2
      | ok others => exact joins_onFiles hnew resolved others

/-- What a run that formats files to be printed comes to is told by each file alone, with a new
formatter. -/
structure PrintsEach (host : Host) (given tidy : Option Path) (stop : Bool) (files : List Path)
    (finish : Finish) : Prop where
  printed : finish.Returns → ∀ workspace settings resolved,
    workspaceOf host given = .ok workspace → Settings.load host workspace = .ok settings →
      files.mapM host.resolve = .ok resolved →
        finish.shown.printed = String.join (resolved.map fun path =>
          (formatFile false host (newFormatter (withSwitches tidy stop settings) workspace)
            path).shown.printed)
  succeeds : finish.exit = .ok 0 ↔ ∃ workspace settings resolved,
    workspaceOf host given = .ok workspace ∧ Settings.load host workspace = .ok settings ∧
      files.mapM host.resolve = .ok resolved ∧
        ∀ path ∈ resolved,
          EndsWell host (newFormatter (withSwitches tidy stop settings) workspace) path

theorem printsEach_format (host : Host) (commit : Version.Answer) (given tidy : Option Path)
    (stop : Bool) (files : List Path) :
    PrintsEach host given tidy stop files
      (invoke host commit (.format given tidy false stop files)) := by
  constructor
  · intro hreturns workspace settings resolved hworkspace hload hresolve
    have hnew := isCurrent_newFormatter (· = host) (withSwitches tidy stop settings) workspace
    simp only [invoke, inWorkspace, hworkspace, runOnFiles_eq hload hresolve] at hreturns ⊢
    exact printed_onFiles hnew hnew ((returns_finishWork_iff _).1 hreturns)
  · have hall : ∀ workspace settings resolved,
        (onFiles (formatFile false) host
            (newFormatter (withSwitches tidy stop settings) workspace) resolved).success =
            .ok true ↔
          ∀ path ∈ resolved,
            EndsWell host (newFormatter (withSwitches tidy stop settings) workspace) path := by
      intro workspace settings resolved
      have hnew := isCurrent_newFormatter (· = host) (withSwitches tidy stop settings) workspace
      exact success_onFiles_iff hnew hnew resolved
    simp only [invoke, exit_inWorkspace_iff, exit_runOnFiles_iff, hall, exists_and_left]

/-- To format two lists of files in one run prints what the runs on each of them print, one after
the other, and succeeds exactly if both do. Each file is printed as it would be alone, and a run
succeeds exactly if each file can be read and ends as formatted or skipped. -/
theorem printed_runs_join (host : Host) (commit : Version.Answer) (given tidy : Option Path)
    (stop : Bool) (first second : List Path) :
    (invoke host commit (.format given tidy false stop first)).Joins
      (invoke host commit (.format given tidy false stop second))
      (invoke host commit (.format given tidy false stop (first ++ second))) ∧
    ∀ files, PrintsEach host given tidy stop files
      (invoke host commit (.format given tidy false stop files)) := by
  refine ⟨?_, printsEach_format host commit given tidy stop⟩
  simp only [invoke, inWorkspace]
  cases workspaceOf host given with
  | error fault =>
    apply Finish.Joins.of_broken (not_returns_breakOff host fault)
    intro hboth
    exact not_returns_breakOff host fault hboth.1
  | ok workspace => exact joins_runOnFiles host workspace _ first second

end CommandLine

end MarkupTidy
