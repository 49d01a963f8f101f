import MarkupTidy.Options.OptionMap

/-!
What merging option maps leaves. The entries of the base whose flag no later entry addresses keep
their order and stand first; behind them stand the later entries, of each flag only the last.
-/
namespace MarkupTidy.OptionMap

/-- The flags that entries address, in order. -/
def flags (entries : List (String × Value)) : List String :=
  entries.map fun entry => flagName entry.1

/-- The entries whose flag is none of these. -/
def withoutFlags (removed : List String) (entries : List (String × Value)) :
    List (String × Value) :=
  entries.filter fun entry => !removed.contains (flagName entry.1)

/-- Of each flag the last entry. -/
def lastOfFlags : List (String × Value) → List (String × Value)
  | [] => []
  | entry :: rest =>
    if flagName entry.1 ∈ flags rest then lastOfFlags rest else entry :: lastOfFlags rest

theorem withoutFlags_append (removed : List String) (first second : List (String × Value)) :
    withoutFlags removed (first ++ second) =
      withoutFlags removed first ++ withoutFlags removed second :=
  List.filter_append first second

theorem withoutFlags_withoutFlag (removed : List String) (flag : String)
    (entries : List (String × Value)) :
    withoutFlags removed (withoutFlag flag entries) = withoutFlags (flag :: removed) entries := by
  unfold withoutFlags withoutFlag hasFlag
  rw [List.filter_filter]
  congr 1
  funext entry
  by_cases h : flagName entry.1 = flag <;> simp [h]

theorem withoutFlags_withoutFlags (removed earlier : List String)
    (entries : List (String × Value)) :
    withoutFlags removed (withoutFlags earlier entries) =
      withoutFlags (earlier ++ removed) entries := by
  unfold withoutFlags
  rw [List.filter_filter]
  congr 1
  funext entry
  rw [List.contains_eq_mem, List.contains_eq_mem, List.contains_eq_mem]
  simp [List.mem_append, Bool.and_comm]

theorem withoutFlags_eq_self (removed : List String) (entries : List (String × Value))
    (h : ∀ flag ∈ flags entries, flag ∉ removed) : withoutFlags removed entries = entries := by
  apply List.filter_eq_self.mpr
  intro entry hentry
  have hflag := h (flagName entry.1) (List.mem_map_of_mem hentry)
  simpa using hflag

theorem find?_eq_head? (options : OptionMap) (key : String) :
    options.find? key = ((options.entries.filter (hasFlag (flagName key))).head?).map Prod.snd := by
  rw [find?, List.head?_filter]

theorem filter_hasFlag_eq_nil_iff (flag : String) (entries : List (String × Value)) :
    entries.filter (hasFlag flag) = [] ↔ flag ∉ flags entries := by
  simp [flags, hasFlag, List.filter_eq_nil_iff]

theorem filter_hasFlag_withoutFlags (flag : String) (removed : List String)
    (entries : List (String × Value)) :
    (withoutFlags removed entries).filter (hasFlag flag) =
      if flag ∈ removed then [] else entries.filter (hasFlag flag) := by
  rw [withoutFlags, List.filter_filter]
  split
  · next hremoved =>
    refine List.filter_eq_nil_iff.2 fun entry _ hboth => ?_
    simp only [hasFlag, Bool.and_eq_true, beq_iff_eq, Bool.not_eq_true', List.contains_eq_mem,
      decide_eq_false_iff_not] at hboth
    exact hboth.2 (hboth.1 ▸ hremoved)
  · next hkept =>
    refine List.filter_congr fun entry _ => ?_
    by_cases hflag : flagName entry.1 = flag <;> simp [hasFlag, hflag, hkept]

theorem lastOfFlags_eq_self (entries : List (String × Value)) (h : (flags entries).Nodup) :
    lastOfFlags entries = entries := by
  induction entries with
  | nil => rfl
  | cons entry rest ih =>
    obtain ⟨hfresh, hrest⟩ : flagName entry.1 ∉ flags rest ∧ (flags rest).Nodup :=
      List.nodup_cons.mp h
    rw [lastOfFlags, if_neg hfresh, ih hrest]

theorem entries_foldl_put (later : List (String × Value)) (base : OptionMap) :
    (later.foldl (fun map entry => map.put entry.1 entry.2) base).entries =
      withoutFlags (flags later) base.entries ++ lastOfFlags later := by
  induction later generalizing base with
  | nil =>
    have hall := withoutFlags_eq_self [] base.entries (by simp)
    simp [flags, lastOfFlags, hall]
  | cons entry rest ih =>
    rw [List.foldl_cons, ih, entries_put, withoutFlags_append, withoutFlags_withoutFlag,
      List.append_assoc]
    congr 1
    by_cases h : flagName entry.1 ∈ flags rest <;>
      simp [withoutFlags, lastOfFlags, h]

/-- Merging removes the flags of the later map from the base and puts the later map behind it. -/
theorem entries_mergeOne (base later : OptionMap) :
    (base.mergeOne later).entries =
      withoutFlags (flags later.entries) base.entries ++ lastOfFlags later.entries :=
  entries_foldl_put later.entries base

/-- A later map without two spellings of one flag stands behind the base as it is. -/
theorem entries_mergeOne_of_nodup (base later : OptionMap) (h : (flags later.entries).Nodup) :
    (base.mergeOne later).entries =
      withoutFlags (flags later.entries) base.entries ++ later.entries := by
  rw [entries_mergeOne, lastOfFlags_eq_self later.entries h]

end MarkupTidy.OptionMap
