import MarkupTidy.Proofs.Formatter.Outcome
import MarkupTidy.Proofs.Options.ArgumentVector
import Mathlib.Data.List.Nodup

/-!
How often a flag stands in an argument vector. The fixed flags stand there once, any other one as
often as the options name it, in whatever spelling. Merging keeps a map from naming a flag twice,
but nothing takes the spellings of a flag together that a map had from the beginning.
-/
namespace MarkupTidy.OptionMap

/-- The words of an argument vector that stand where a flag is expected. -/
def flagPositions : List String → List String
  | flag :: _ :: rest => flag :: flagPositions rest
  | _ => []

theorem flagPositions_words (pairs : List (String × String)) :
    flagPositions (words pairs) = pairs.map Prod.fst := by
  induction pairs with
  | nil => rfl
  | cons pair rest ih => exact congrArg (pair.1 :: ·) ih

/-- The flags of an argument vector are those of the entries that are not left out. -/
theorem flagPositions_arguments {map : OptionMap} {arguments : List String}
    (h : map.arguments = .ok arguments) :
    flagPositions arguments = flags (present map.entries) := by
  obtain ⟨pairs, hpairs, rfl⟩ := (argumentsOf_eq_ok_iff _ _).mp h
  rw [flagPositions_words, map_fst_of_renders hpairs]

theorem count_flags (flag : String) (entries : List (String × Value)) :
    (flags entries).count flag = entries.countP (hasFlag flag) := by
  rw [flags, List.count, List.countP_map]
  rfl

theorem count_flags_withoutFlags (flag : String) (removed : List String)
    (entries : List (String × Value)) :
    (flags (withoutFlags removed entries)).count flag =
      if flag ∈ removed then 0 else (flags entries).count flag := by
  rw [count_flags, count_flags, List.countP_eq_length_filter, List.countP_eq_length_filter,
    filter_hasFlag_withoutFlags]
  split <;> rfl

theorem present_withFixed (map : OptionMap) :
    present map.withFixed.entries =
      withoutFlags fixedFlags (present map.entries) ++ fixed.entries := by
  have hfixed : present fixed.entries = fixed.entries := by rfl
  rw [entries_withFixed, present, List.filter_append, ← present, ← present, hfixed, present,
    withoutFlags, List.filter_comm, ← withoutFlags, ← present]

theorem count_flags_withFixed (flag : String) (map : OptionMap) :
    (flags (present map.withFixed.entries)).count flag =
      if flag ∈ fixedFlags then 1 else (flags (present map.entries)).count flag := by
  have hnodup : fixedFlags.Nodup := by decide
  have hsplit : flags (present map.withFixed.entries) =
      flags (withoutFlags fixedFlags (present map.entries)) ++ fixedFlags := by
    rw [present_withFixed, ← flags_fixed, flags, flags, flags, List.map_append]
  rw [hsplit, List.count_append, count_flags_withoutFlags]
  split
  · next hmem => rw [List.count_eq_one_of_mem hnodup hmem]
  · next hnot => rw [List.count_eq_zero_of_not_mem hnot, Nat.add_zero]

end MarkupTidy.OptionMap

namespace MarkupTidy.Runner

open OptionMap

/-- An engine gets each fixed flag once and any other as often as the options name it, an entry
without a name or a value aside. So its arguments repeat no flag exactly if the options name none
that is not fixed twice. -/
theorem launched_flag_counts (host : Host) (executable : Option String) (options : OptionMap)
    (text : String) (launched : Launched)
    (h : (launch host executable options text).value = .ok launched) :
    ∃ path arguments, executable = some path ∧ options.withFixed.arguments = .ok arguments ∧
      startWith host path arguments text = .ok launched ∧
      (∀ flag, (flagPositions arguments).count flag =
        if flag ∈ fixedFlags then 1 else (flags (present options.entries)).count flag) ∧
      ((flagPositions arguments).Nodup ↔
        ∀ flag, flag ∉ fixedFlags → (flags (present options.entries)).count flag ≤ 1) := by
  cases executable with
  | none => cases h
  | some path =>
    obtain ⟨-, arguments, harguments, hstart⟩ :=
      (Formatter.launch_eq_ok_iff host path options text launched).1 h
    have hcount : ∀ flag, (flagPositions arguments).count flag =
        if flag ∈ fixedFlags then 1 else (flags (present options.entries)).count flag := by
      intro flag
      rw [flagPositions_arguments harguments, count_flags_withFixed]
    refine ⟨path, arguments, rfl, harguments, hstart, hcount, ?_⟩
    rw [List.nodup_iff_count_le_one]
    refine forall_congr' fun flag => ?_
    rw [hcount flag]
    split
    · next hfixed => exact ⟨fun _ hnot => absurd hfixed hnot, fun _ => Nat.le_refl 1⟩
    · next hfree => exact ⟨fun hle _ => hle, fun hle => hle hfree⟩

/-- The arguments that a run without options gives an engine. -/
theorem launched_flag_counts_capitals :
    ∃ arguments, startWith Formatter.capitalsHost "/tidy" arguments "<p>" =
        .ok ⟨"/tidy", .ends Formatter.capitalsRun⟩ ∧ (flagPositions arguments).Nodup := by
  obtain ⟨path, arguments, hpath, -, hstart, -, hnodup⟩ :=
    launched_flag_counts Formatter.capitalsHost (some "/tidy") .empty "<p>" _
      ((Formatter.launch_eq_ok_iff _ _ _ _ _).2 Formatter.starts_capitals)
  cases hpath
  exact ⟨arguments, hstart, hnodup.2 fun flag _ => by simp [OptionMap.empty, present, flags]⟩

/-- Options with two spellings of one flag. -/
def twiceSpelled : OptionMap := .ofPairs [("show-errors", .int 3), ("showErrors", .int 4)]

/-- Two spellings of a flag both reach the engine. -/
theorem twiceSpelled_repeats :
    ∃ arguments, twiceSpelled.withFixed.arguments = .ok arguments ∧
      (launch Formatter.capitalsHost (some "/tidy") twiceSpelled "<p>").value =
        startWith Formatter.capitalsHost "/tidy" arguments "<p>" ∧
      startWith Formatter.capitalsHost "/tidy" arguments "<p>" =
        .ok ⟨"/tidy", .ends Formatter.capitalsRun⟩ ∧
      arguments = ["--show-errors", "3", "--show-errors", "4", "--tidy-mark", "no",
        "--force-output", "yes", "--quiet", "no"] ∧
      ¬ (flagPositions arguments).Nodup := by
  have harguments : twiceSpelled.withFixed.arguments = .ok ["--show-errors", "3", "--show-errors",
      "4", "--tidy-mark", "no", "--force-output", "yes", "--quiet", "no"] := by rfl
  refine ⟨_, harguments, ?_, ?_, rfl, by decide⟩
  · rfl
  · rw [Host.startWith_of_engine (by decide) (by decide) Formatter.program_capitals rfl (by decide)
      (by decide)]
    rfl

end MarkupTidy.Runner
