import MarkupTidy.Proofs.Formatter.Outcome
import MarkupTidy.Proofs.Formatter.Reads
import MarkupTidy.Proofs.Options.ArgumentVector

/-!
Engines that start. Which program a launch starts does not depend on the arguments, as long as the
system can pass them on; with one that is too long, or with more than there is room for, nothing
starts. A request whose engine starts comes to what its engine gives.
-/
namespace MarkupTidy

namespace Host

/-- The executable is one that starts as the engine, given no arguments. -/
structure Provides (host : Host) (executable : String) (engine : Engine) : Prop where
  named : executable ≠ ""
  hasNoNul : hasNul executable = false
  starts : host.start executable [] = .ok engine

/-- Where there is room for some arguments, there is room for none. -/
theorem takes_nil {host : Host} {executable : String} {arguments : List String}
    (h : host.takes executable arguments = true) : host.takes executable [] = true := by
  unfold takes at h ⊢
  rw [Bool.and_eq_true, decide_eq_true_eq] at h ⊢
  obtain ⟨-, hroom⟩ := h
  simp only [roomOf] at hroom ⊢
  refine ⟨rfl, ?_⟩
  omega

/-- A program at a path with a slash is an engine, if it is none that an interpreter runs and there
is room for its path. -/
theorem provides_program {host : Host} {path : String} {file : File} {engine : Engine}
    (hslash : path.toList.contains '/' = true) (hnul : hasNul path = false)
    (hprogram : host.program path = .ok file) (hengine : file.engine = some engine)
    (htakes : host.takes path [] = true) : host.Provides path engine where
  named := by
    rintro rfl
    cases hslash
  hasNoNul := hnul
  starts := start_of_engine hslash hprogram hengine htakes

theorem startFirst_of_takes {host : Host} {executable : String} {arguments : List String}
    (h : host.takes executable arguments = true) (reported : Option Refusal)
    (paths : List String) :
    host.startFirst executable arguments reported paths =
      host.startFirst executable [] reported paths := by
  induction paths generalizing reported with
  | nil => rfl
  | cons path rest ih =>
    rw [startFirst, startAt_of_takes h, startFirst, startAt_of_takes (takes_nil h)]
    cases host.engineAt path with
    | ok engine => rfl
    | error refusal => exact ih _

/-- What starts does not depend on arguments that can be passed on. -/
theorem start_of_takes {host : Host} {executable : String} {arguments : List String}
    (h : host.takes executable arguments = true) :
    host.start executable arguments = host.start executable [] := by
  rw [start_eq_startFirst, start_eq_startFirst, startFirst_of_takes h]

theorem startAt_of_not_takes {host : Host} {executable : String} {arguments : List String}
    (h : host.takes executable arguments = false) (path : String) :
    ∃ refusal, host.startAt executable arguments path = .error refusal := by
  cases hprogram : host.program path with
  | error refusal => exact startAt_refuses executable arguments ⟨refusal, hprogram⟩
  | ok file =>
    refine ⟨.argumentsTooLong, ?_⟩
    simp only [startAt, hprogram, h, Bool.false_eq_true, if_false, bind, Except.bind]

/-- With arguments that cannot be passed on nothing starts. -/
theorem start_of_not_takes {host : Host} {executable : String} {arguments : List String}
    (h : host.takes executable arguments = false) :
    ∃ refusal, host.start executable arguments = .error refusal := by
  rw [start_eq_startFirst]
  exact startFirst_refuses (fun path _ => startAt_of_not_takes h path) none

section Provides

variable {host : Host} {executable : String} {engine : Engine} {arguments : List String}

theorem Provides.startWith_takes (h : host.Provides executable engine)
    (hnul : arguments.any hasNul = false) (htakes : host.takes executable arguments = true)
    (text : String) :
    Runner.startWith host executable arguments text =
      .ok ⟨executable, engine arguments (Text.Utf8.encode text.toList)⟩ := by
  simp only [Runner.startWith, List.any_cons, h.hasNoNul, hnul, Bool.or_self, Bool.false_eq_true,
    if_false, start_of_takes htakes, h.starts]

theorem Provides.startWith_refused (h : host.Provides executable engine)
    (hnul : arguments.any hasNul = false) {refusal : Refusal}
    (hrefused : host.start executable arguments = .error refusal) (text : String) :
    Runner.startWith host executable arguments text =
      .error (.launch (some executable) (.refused ⟨refusal, [executable]⟩)) := by
  simp only [Runner.startWith, List.any_cons, h.hasNoNul, hnul, Bool.or_self, Bool.false_eq_true,
    if_false, hrefused]

end Provides

end Host

/-- A run with these options has these arguments, and each of them is a text for an argument. -/
def OptionMap.Gives (options : OptionMap) (arguments : List String) : Prop :=
  options.withFixed.arguments = .ok arguments ∧ arguments.any Host.hasNul = false

namespace Formatter

section Launch

variable {host : Host} {executable : String} {engine : Engine} {options : OptionMap}
  {arguments : List String}

/-- An engine starts with options that give arguments which can be passed on. -/
theorem starts_of_takes (hengine : host.Provides executable engine)
    (hgives : options.Gives arguments)
    (htakes : host.takes executable arguments = true) (text : String) :
    Starts host executable options text
      ⟨executable, engine arguments (Text.Utf8.encode text.toList)⟩ :=
  ⟨hengine.named, arguments, hgives.1, hengine.startWith_takes hgives.2 htakes text⟩

theorem launch_of_gives (hgives : options.Gives arguments) (hname : executable ≠ "")
    (text : String) : (Runner.launch host (some executable) options text).value =
      Runner.startWith host executable arguments text := by
  rw [value_launch host hname, hgives.1]
  rfl

/-- No engine starts with arguments that cannot be passed on. -/
theorem launch_of_not_takes (hengine : host.Provides executable engine)
    (hgives : options.Gives arguments)
    (htakes : host.takes executable arguments = false) (text : String) :
    ∃ refusal, (Runner.launch host (some executable) options text).value =
      .error (.launch (some executable) (.refused ⟨refusal, [executable]⟩)) := by
  obtain ⟨refusal, hrefused⟩ := Host.start_of_not_takes htakes
  refine ⟨refusal, ?_⟩
  rw [launch_of_gives hgives hengine.named, hengine.startWith_refused hgives.2 hrefused]

end Launch

section Buffer

variable {host : Host} {f : Formatter} {text : String} {path : Option Path} {executable : String}
  {options : OptionMap} {warnings : List String}

/-- A request for a buffer whose engine is found and whose options are built goes on with the launch
of its engine. -/
theorem format_of_built (hne : text ≠ "")
    (hfound : (f.findEngine host).value.1.path = some executable)
    (hbuilt : ((f.findEngine host).value.2.buildOptions host text path).value.1 =
      .ok (options, warnings)) :
    ∃ built : Formatter, built.settings = f.settings ∧
      (f.format host (.buffer text path false)).value.1 =
        resultOf host (.buffer text path false) (launchJob host built executable options text
          ((f.findEngine host).value.1.warnings ++ warnings)).value := by
  have hsettings := settings_buildOptions host (f.findEngine host).value.2 text path
  rw [settings_findEngine] at hsettings
  rw [value_format host f text path hne]
  simp only [beginText, Logged.value_bind, hfound]
  revert hbuilt hsettings
  generalize ((f.findEngine host).value.2.buildOptions host text path).value = built
  obtain ⟨result, f'⟩ := built
  intro hbuilt hsettings
  cases hbuilt
  exact ⟨f', hsettings, rfl⟩

/-- A request for a buffer whose engine starts comes to what its engine gives. -/
theorem format_of_starts {launched : Launched} (hne : text ≠ "")
    (hfound : (f.findEngine host).value.1.path = some executable)
    (hbuilt : ((f.findEngine host).value.2.buildOptions host text path).value.1 =
      .ok (options, warnings))
    (hstarts : Starts host executable options text launched) :
    (f.format host (.buffer text path false)).value.1 =
      (finishRequest host ⟨text, f.settings, (f.findEngine host).value.1.warnings ++ warnings,
        launched⟩ (.buffer text path false)).value := by
  have hlaunch := (launch_eq_ok_iff host executable options text launched).2 hstarts
  obtain ⟨built, hsettings, hformat⟩ := format_of_built hne hfound hbuilt
  rw [hformat]
  simp only [launchJob, Logged.value_bind, Logged.value_pure, hlaunch, resultOf, hsettings]

end Buffer

end Formatter

end MarkupTidy
