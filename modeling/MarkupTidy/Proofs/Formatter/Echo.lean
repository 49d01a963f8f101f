import MarkupTidy.Proofs.Formatter.Starting
import MarkupTidy.Proofs.Text.Utf8

/-!
An engine that writes its input out again. What it writes is decoded to the text that it was given,
whatever characters this has, so a request leaves its document as it is. All that stands between the
options and the engine are the arguments: the system starts no program with one that is too long, or
with more of them than it has room for.
-/
namespace MarkupTidy

/-- The engine writes its input out again and ends with exit code 0. -/
def Engine.Echoes (engine : Engine) : Prop :=
  ∀ arguments input, ∃ diagnostics, engine arguments input = .ends ⟨input, diagnostics, 0⟩

/-- A text that is written out again is the output. -/
theorem Execution.ofRun_encode (text : String) (diagnostics : Text.Utf8.Octets) (code : Int) :
    Execution.ofRun ⟨Text.Utf8.encode text.toList, diagnostics, code⟩ =
      ⟨text, String.ofList (Text.Utf8.decodeLossy diagnostics), some code⟩ := by
  simp only [Execution.ofRun, Text.Utf8.decodeLossy_encode, String.ofList_toList]

namespace Formatter

section Echo

variable {host : Host} {executable : String} {engine : Engine} {options : OptionMap}
  {arguments : List String}

/-- The text comes back from a run. -/
theorem run_of_takes (hengine : host.Provides executable engine) (hechoes : engine.Echoes)
    (hgives : options.Gives arguments)
    (htakes : host.takes executable arguments = true) (text : String)
    (limit : Option TimeLimit) :
    ∃ diagnostics,
      (Runner.run host (some executable) options text (limit.map Subtype.val)).value =
        .ok ⟨text, diagnostics, some 0⟩ := by
  obtain ⟨diagnostics, hends⟩ := hechoes arguments (Text.Utf8.encode text.toList)
  have hlaunch := (launch_eq_ok_iff host executable options text _).2
    (starts_of_takes hengine hgives htakes text)
  have hconclude := conclude_known ⟨executable, engine arguments (Text.Utf8.encode text.toList)⟩
    _ limit hends (Or.inl rfl)
  rw [Execution.ofRun_encode] at hconclude
  exact ⟨_, by simp only [Runner.run, Logged.value_bind, hlaunch, hconclude]; rfl⟩

theorem run_of_not_takes (hengine : host.Provides executable engine)
    (hgives : options.Gives arguments)
    (htakes : host.takes executable arguments = false) (text : String)
    (limit : Option TimeLimit) :
    ∃ refusal, (Runner.run host (some executable) options text (limit.map Subtype.val)).value =
      .error (.launch (some executable) (.refused ⟨refusal, [executable]⟩)) := by
  obtain ⟨refusal, hlaunch⟩ := launch_of_not_takes hengine hgives htakes text
  exact ⟨refusal, by simp only [Runner.run, Logged.value_bind, Logged.value_pure, hlaunch]⟩

variable {f : Formatter} {text : String} {path : Option Path} {warnings : List String}

/-- With such options a request gives its document the text that it has. -/
theorem format_of_takes (hengine : host.Provides executable engine) (hechoes : engine.Echoes)
    (hne : text ≠ "") (hfound : (f.findEngine host).value.1.path = some executable)
    (hbuilt : ((f.findEngine host).value.2.buildOptions host text path).value.1 =
      .ok (options, warnings))
    (hgives : options.Gives arguments)
    (htakes : host.takes executable arguments = true) :
    ∃ diagnostics messages, (f.format host (.buffer text path false)).value.1 =
      (.ok ⟨.formatted, some ⟨text, diagnostics, some 0⟩, messages⟩,
        ⟨host, .buffer text path false⟩) := by
  obtain ⟨diagnostics, hends⟩ := hechoes arguments (Text.Utf8.encode text.toList)
  have hdecoded : Text.Utf8.decodeLossy (Text.Utf8.encode text.toList) = text.toList :=
    Text.Utf8.decodeLossy_encode text.toList
  have happly : MayApply f.settings ⟨Text.Utf8.encode text.toList, diagnostics, 0⟩ := by
    refine ⟨Or.inl rfl, ?_⟩
    rw [hdecoded]
    simpa using hne
  obtain ⟨messages, hfinish⟩ := finishRequest_applies host
    ⟨text, f.settings, (f.findEngine host).value.1.warnings ++ warnings,
      ⟨executable, engine arguments (Text.Utf8.encode text.toList)⟩⟩ text path _ hends happly
  rw [Execution.ofRun_encode, hdecoded, String.ofList_toList] at hfinish
  exact ⟨_, messages, (format_of_starts hne hfound hbuilt
    (starts_of_takes hengine hgives htakes text)).trans hfinish⟩

/-- With arguments that cannot be passed on a request fails, and the document stays as it is. -/
theorem format_of_not_takes (hengine : host.Provides executable engine)
    (hne : text ≠ "") (hfound : (f.findEngine host).value.1.path = some executable)
    (hbuilt : ((f.findEngine host).value.2.buildOptions host text path).value.1 =
      .ok (options, warnings))
    (hgives : options.Gives arguments)
    (htakes : host.takes executable arguments = false) :
    ∃ messages, (f.format host (.buffer text path false)).value.1 =
      (.ok (.failed messages), ⟨host, .buffer text path false⟩) := by
  obtain ⟨refusal, hlaunch⟩ := launch_of_not_takes hengine hgives htakes text
  obtain ⟨built, -, hformat⟩ := format_of_built hne hfound hbuilt
  rw [hformat]
  simp only [launchJob, Logged.value_bind, Logged.value_pure, hlaunch]
  exact ⟨_, rfl⟩

end Echo

/-- An engine that writes its input out again gives back every text exactly, whatever the options,
as long as the system takes their arguments: none is too long, and there is room for all of them.
With other arguments it is not started. So a request gives its document the text that it has, or
fails and leaves the document as it is. -/
theorem echo_gives_text_back {host : Host} {executable : String} {engine : Engine}
    (hengine : host.Provides executable engine) (hechoes : engine.Echoes) :
    (∀ (options : OptionMap) (arguments : List String) (text : String)
      (limit : Option TimeLimit), options.Gives arguments →
        if host.takes executable arguments then
          ∃ diagnostics,
            (Runner.run host (some executable) options text (limit.map Subtype.val)).value =
              .ok ⟨text, diagnostics, some 0⟩
        else
          ∃ refusal,
            (Runner.run host (some executable) options text (limit.map Subtype.val)).value =
              .error (.launch (some executable) (.refused ⟨refusal, [executable]⟩))) ∧
    (∀ (f : Formatter) (text : String) (path : Option Path) (options : OptionMap)
      (warnings arguments : List String), text ≠ "" →
      (f.findEngine host).value.1.path = some executable →
      ((f.findEngine host).value.2.buildOptions host text path).value.1 =
        .ok (options, warnings) →
      options.Gives arguments →
        if host.takes executable arguments then
          ∃ diagnostics messages, (f.format host (.buffer text path false)).value.1 =
            (.ok ⟨.formatted, some ⟨text, diagnostics, some 0⟩, messages⟩,
              ⟨host, .buffer text path false⟩)
        else
          ∃ messages, (f.format host (.buffer text path false)).value.1 =
            (.ok (.failed messages), ⟨host, .buffer text path false⟩)) := by
  constructor
  · intro options arguments text limit hgives
    split
    · next htakes => exact run_of_takes hengine hechoes hgives htakes text limit
    · next htakes =>
      rw [Bool.not_eq_true] at htakes
      exact run_of_not_takes hengine hgives htakes text limit
  · intro f text path options warnings arguments hne hfound hbuilt hgives
    split
    · next htakes => exact format_of_takes hengine hechoes hne hfound hbuilt hgives htakes
    · next htakes =>
      rw [Bool.not_eq_true] at htakes
      exact format_of_not_takes hengine hne hfound hbuilt hgives htakes

/-! A local engine that writes its input out again. -/

/-- The engine of the local host. -/
def localEcho : Engine := fun _ input => .ends ⟨input, [], 0⟩

theorem echoes_localEcho : localEcho.Echoes := fun _ _ => ⟨[], rfl⟩

theorem contains_slash : "/t".toList.contains '/' = true := by decide

theorem program_localEcho :
    Host.localHost.program "/t" = .ok ⟨[], 0o755, some localEcho⟩ :=
  Host.program_of_stat Host.localHost.stat_path Host.localHost.program_runs

theorem provides_localEcho : Host.localHost.Provides "/t" localEcho :=
  Host.provides_program contains_slash (by decide) program_localEcho rfl (by decide)

/-- One option with a text. -/
def oneText (value : String) : OptionMap := .ofPairs [("a", .text value)]

theorem gives_oneText {value : String} (h : Host.hasNul value = false) :
    (oneText value).Gives ("--a" :: value :: OptionMap.fixedWords) := by
  have hflag : flagName "a" = "--a" := by decide
  have hfixed : OptionMap.fixedFlags.contains (flagName "a") = false := by decide
  have hwords : OptionMap.fixedWords.any Host.hasNul = false := by decide
  have hname : Host.hasNul "--a" = false := by decide
  have hentries : (oneText value).withFixed.entries =
      ("a", .text value) :: OptionMap.fixed.entries := by
    have hcollected : (oneText value).entries = [("a", .text value)] := rfl
    rw [OptionMap.entries_withFixed, OptionMap.withoutFlags, hcollected,
      List.filter_cons_of_pos (by rw [hfixed]; rfl)]
    rfl
  constructor
  · simp only [OptionMap.arguments, hentries, OptionMap.argumentsOf, OptionMap.argumentsOf_fixed,
      encodeValue, hflag, bind, Except.bind]
    rfl
  · simp only [List.any_cons, hname, h, hwords, Bool.or_self]

/-- A text of so many letters. -/
def letters (count : Nat) : String := String.ofList (List.replicate count 'x')

theorem hasNul_letters (count : Nat) : Host.hasNul (letters count) = false := by
  rw [← Bool.not_eq_true, Host.hasNul_iff, letters, String.toList_ofList, List.mem_replicate]
  rintro ⟨-, hchar⟩
  exact absurd hchar (by decide)

theorem utf8ByteSize_letters (count : Nat) : (letters count).utf8ByteSize = count := by
  induction count with
  | zero => rfl
  | succ count ih =>
    have hsize : 'x'.utf8Size = 1 := by decide
    rw [letters, List.replicate_succ, String.ofList_cons, String.utf8ByteSize_append,
      String.utf8ByteSize_singleton, hsize, ← letters, ih, Nat.add_comm]

theorem isArgumentTooLong_letters :
    Host.isArgumentTooLong (letters Host.argumentLimit) = true := by
  rw [Host.isArgumentTooLong, Host.wordSize, utf8ByteSize_letters, decide_eq_true_eq]
  exact Nat.lt_succ_self _

/-- An option with a text that no argument holds keeps the engine from being started. -/
theorem run_oneText {value : String} (hnul : Host.hasNul value = false)
    (hlong : Host.isArgumentTooLong value = true) (text : String) :
    (Runner.run Host.localHost (some "/t") (oneText value) text none).value =
      .error (.launch (some "/t") (.refused ⟨.argumentsTooLong, ["/t"]⟩)) := by
  have hgives := gives_oneText hnul
  have htakes : Host.localHost.takes "/t" ("--a" :: value :: OptionMap.fixedWords) = false := by
    simp only [Host.takes, List.any_cons, hlong, Bool.true_or, Bool.or_true, Bool.not_true,
      Bool.false_and]
  have hrefused : Host.localHost.start "/t" ("--a" :: value :: OptionMap.fixedWords) =
      .error .argumentsTooLong := by
    simp only [Host.start, contains_slash, if_true, Host.startAt, program_localEcho, htakes, bind,
      Except.bind, Bool.false_eq_true, if_false]
  simp only [Runner.run, Logged.value_bind, launch_of_gives hgives provides_localEcho.named,
    provides_localEcho.startWith_refused hgives.2 hrefused, Logged.value_pure]

/-- With an option of as many letters as an argument has octets at most, the engine is not started:
an argument has one octet more, which ends it. -/
theorem echo_not_started :
    Host.localHost.Provides "/t" localEcho ∧ localEcho.Echoes ∧
    (∃ arguments, (oneText (letters Host.argumentLimit)).Gives arguments) ∧
    (Runner.run Host.localHost (some "/t") (oneText (letters Host.argumentLimit)) "<p>x</p>"
        none).value =
      .error (.launch (some "/t") (.refused ⟨.argumentsTooLong, ["/t"]⟩)) :=
  ⟨provides_localEcho, echoes_localEcho,
    ⟨_, gives_oneText (hasNul_letters Host.argumentLimit)⟩,
    run_oneText (hasNul_letters Host.argumentLimit) isArgumentTooLong_letters "<p>x</p>"⟩

/-- A formatter that has found the local engine. -/
def localFormatter : Formatter where
  resolver := .ofSettings ⟨0, { fileSearch := false }⟩ none
  lookup := some ⟨some "/t", []⟩

/-- A byte order mark, every kind of line end, a zero and a character of four octets come back. -/
theorem echo_gives_text_back_marks :
    Host.localHost.Provides "/t" localEcho ∧ localEcho.Echoes ∧
    OptionMap.empty.Gives OptionMap.fixedWords ∧
    (∃ diagnostics,
      (Runner.run Host.localHost (some "/t") .empty "\uFEFF<p>\r\n\r\n\x00𝄞" none).value =
        .ok ⟨"\uFEFF<p>\r\n\r\n\x00𝄞", diagnostics, some 0⟩) ∧
    ∃ diagnostics messages,
      (localFormatter.format Host.localHost (.buffer "\r<p>\r\n𝄞" none false)).value.1 =
        (.ok ⟨.formatted, some ⟨"\r<p>\r\n𝄞", diagnostics, some 0⟩, messages⟩,
          ⟨Host.localHost, .buffer "\r<p>\r\n𝄞" none false⟩) := by
  have hgives : OptionMap.empty.Gives OptionMap.fixedWords := ⟨rfl, by decide⟩
  have htakes : Host.localHost.takes "/t" OptionMap.fixedWords = true := by decide
  have hback := echo_gives_text_back provides_localEcho echoes_localEcho
  have hrun := hback.1 .empty OptionMap.fixedWords "\uFEFF<p>\r\n\r\n\x00𝄞" none hgives
  have hformat := hback.2 localFormatter "\r<p>\r\n𝄞" none .empty [] OptionMap.fixedWords
    (by decide) rfl rfl hgives
  rw [if_pos htakes] at hrun hformat
  exact ⟨provides_localEcho, echoes_localEcho, hgives, hrun, hformat⟩

end Formatter

end MarkupTidy
