import MarkupTidy.Proofs.Options.Merging
import Mathlib.Data.List.Nodup

/-!
The laws of merging option maps. All maps that are put over a base count as one list of entries, of
which the last one for a flag stays. So it makes no difference how the maps are grouped, and a map
that is put over a base twice has no more effect than once.
-/
namespace MarkupTidy.OptionMap

/-- Merge maps in order over a base; a map that is not given has no entries. -/
def mergeGiven (base : Option OptionMap) (laters : List (Option OptionMap)) : OptionMap :=
  (base.getD .empty).merge (laters.map (·.getD .empty))

/-- The entries of some maps one after the other. -/
def entriesOf (maps : List (Option OptionMap)) : List (String × Value) :=
  maps.flatMap fun map => (map.getD .empty).entries

theorem eq_of_entries {first second : OptionMap} (h : first.entries = second.entries) :
    first = second := by
  cases first
  cases second
  cases h
  rfl

theorem flags_append (first second : List (String × Value)) :
    flags (first ++ second) = flags first ++ flags second :=
  List.map_append

theorem withoutFlags_congr {removed others : List String}
    (h : ∀ flag, flag ∈ removed ↔ flag ∈ others) (entries : List (String × Value)) :
    withoutFlags removed entries = withoutFlags others entries := by
  refine List.filter_congr fun entry _ => ?_
  rw [List.contains_eq_mem, List.contains_eq_mem, decide_eq_decide.2 (h _)]

theorem mem_flags_withoutFlags (flag : String) (removed : List String)
    (entries : List (String × Value)) :
    flag ∈ flags (withoutFlags removed entries) ↔ flag ∈ flags entries ∧ flag ∉ removed := by
  rw [← not_iff_not, ← filter_hasFlag_eq_nil_iff, filter_hasFlag_withoutFlags, not_and, not_not]
  split
  · next hremoved => exact ⟨fun _ _ => hremoved, fun _ => rfl⟩
  · next hkept =>
    rw [filter_hasFlag_eq_nil_iff]
    exact ⟨fun hnone hflag => absurd hflag hnone, fun h hflag => hkept (h hflag)⟩

/-! Of each flag the last entry. -/

theorem mem_flags_lastOfFlags (flag : String) (entries : List (String × Value)) :
    flag ∈ flags (lastOfFlags entries) ↔ flag ∈ flags entries := by
  induction entries with
  | nil => rfl
  | cons entry rest ih =>
    have hcons : flag ∈ flags (entry :: rest) ↔ flag = flagName entry.1 ∨ flag ∈ flags rest :=
      List.mem_cons
    rw [lastOfFlags, hcons]
    split
    · next hlater =>
      rw [ih]
      exact ⟨Or.inr, fun h => h.elim (fun heq => heq ▸ hlater) id⟩
    · rw [← ih]
      exact List.mem_cons

theorem nodup_flags_lastOfFlags (entries : List (String × Value)) :
    (flags (lastOfFlags entries)).Nodup := by
  induction entries with
  | nil => exact List.nodup_nil
  | cons entry rest ih =>
    rw [lastOfFlags]
    split
    · exact ih
    · next hfresh => exact List.nodup_cons.2 ⟨mt (mem_flags_lastOfFlags _ _).1 hfresh, ih⟩

/-- In a list in two parts the last entry of a flag is one of the second part, if it has any. -/
theorem lastOfFlags_append (first second : List (String × Value)) :
    lastOfFlags (first ++ second) =
      withoutFlags (flags second) (lastOfFlags first) ++ lastOfFlags second := by
  induction first with
  | nil => rfl
  | cons entry rest ih =>
    rw [List.cons_append, lastOfFlags, lastOfFlags, flags_append, ih]
    by_cases hrest : flagName entry.1 ∈ flags rest <;>
      by_cases hsecond : flagName entry.1 ∈ flags second <;>
      simp [withoutFlags, hrest, hsecond]

theorem lastOfFlags_withoutFlags (removed : List String) (entries : List (String × Value)) :
    lastOfFlags (withoutFlags removed entries) = withoutFlags removed (lastOfFlags entries) := by
  induction entries with
  | nil => rfl
  | cons entry rest ih =>
    by_cases hremoved : flagName entry.1 ∈ removed
    · have hskip : withoutFlags removed (entry :: rest) = withoutFlags removed rest := by
        simp [withoutFlags, hremoved]
      rw [hskip, ih, lastOfFlags]
      split <;> simp [withoutFlags, hremoved]
    · have hkeep : ∀ entries, withoutFlags removed (entry :: entries) =
          entry :: withoutFlags removed entries := by
        simp [withoutFlags, hremoved]
      have hlaters := mem_flags_withoutFlags (flagName entry.1) removed rest
      rw [hkeep, lastOfFlags, lastOfFlags, ih]
      by_cases hlater : flagName entry.1 ∈ flags rest
      · rw [if_pos hlater, if_pos (hlaters.2 ⟨hlater, hremoved⟩)]
      · rw [if_neg hlater, if_neg fun h => hlater (hlaters.1 h).1, hkeep]

theorem withoutFlags_lastOfFlags_self (entries : List (String × Value)) :
    withoutFlags (flags entries) (lastOfFlags entries) = [] := by
  refine List.filter_eq_nil_iff.2 fun entry hentry => ?_
  have hflag := (mem_flags_lastOfFlags (flagName entry.1) entries).1 (List.mem_map_of_mem hentry)
  simp [hflag]

/-- Of each flag there is the last entry, and no other. -/
theorem filter_hasFlag_lastOfFlags (flag : String) (entries : List (String × Value)) :
    (lastOfFlags entries).filter (hasFlag flag) =
      (entries.filter (hasFlag flag)).getLast?.toList := by
  induction entries with
  | nil => rfl
  | cons entry rest ih =>
    rw [lastOfFlags]
    by_cases hflag : hasFlag flag entry = true
    · have heq : flagName entry.1 = flag := beq_iff_eq.1 hflag
      rw [List.filter_cons_of_pos hflag, heq]
      split
      · next hlater =>
        obtain ⟨next, others, hrest⟩ := List.exists_cons_of_ne_nil
          (mt (filter_hasFlag_eq_nil_iff flag rest).1 (not_not_intro hlater))
        rw [ih, hrest, List.getLast?_cons_cons]
      · next hfresh =>
        rw [List.filter_cons_of_pos hflag, ih, (filter_hasFlag_eq_nil_iff _ _).2 hfresh]
        rfl
    · rw [List.filter_cons_of_neg hflag, ← ih]
      split
      · rfl
      · rw [List.filter_cons_of_neg hflag]

/-! Merging. -/

theorem entries_merge (base : OptionMap) (laters : List OptionMap) :
    (base.merge laters).entries =
      withoutFlags (flags (laters.flatMap entries)) base.entries ++
        lastOfFlags (laters.flatMap entries) := by
  rw [← entries_foldl_put, List.foldl_flatMap]
  rfl

/-- What a merge leaves of the base, and behind it the last entry of each flag from the maps. -/
theorem entries_mergeGiven (base : Option OptionMap) (laters : List (Option OptionMap)) :
    (mergeGiven base laters).entries =
      withoutFlags (flags (entriesOf laters)) (base.getD .empty).entries ++
        lastOfFlags (entriesOf laters) := by
  rw [mergeGiven, entries_merge, List.flatMap_map]
  rfl

theorem find?_mergeGiven (base : Option OptionMap) (laters : List (Option OptionMap))
    (key : String) :
    (mergeGiven base laters).find? key =
      (((entriesOf laters).filter (hasFlag (flagName key))).getLast?.map Prod.snd).or
        ((base.getD .empty).find? key) := by
  rw [find?_eq_head?, find?_eq_head?, entries_mergeGiven, List.filter_append,
    filter_hasFlag_withoutFlags, filter_hasFlag_lastOfFlags]
  split
  · next hmem =>
    have hne := mt (filter_hasFlag_eq_nil_iff _ _).1 (not_not_intro hmem)
    rw [List.getLast?_eq_getLast_of_ne_nil hne]
    rfl
  · next hnot =>
    rw [(filter_hasFlag_eq_nil_iff _ _).2 hnot]
    simp

/-- It makes no difference which maps are merged first. -/
theorem mergeGiven_assoc (base middle last : Option OptionMap) :
    mergeGiven base [some (mergeGiven middle [last])] =
      mergeGiven (some (mergeGiven base [middle])) [last] := by
  apply eq_of_entries
  simp only [entries_mergeGiven, entriesOf, List.flatMap_cons, List.flatMap_nil, List.append_nil,
    Option.getD_some]
  generalize (base.getD .empty).entries = first
  generalize (middle.getD .empty).entries = second
  generalize (last.getD .empty).entries = third
  have hflags : ∀ flag, flag ∈ flags (withoutFlags (flags third) second ++ lastOfFlags third) ↔
      flag ∈ flags second ++ flags third := by
    intro flag
    rw [flags_append, List.mem_append, List.mem_append, mem_flags_withoutFlags,
      mem_flags_lastOfFlags]
    by_cases hlast : flag ∈ flags third <;> simp [hlast]
  have hkept : withoutFlags (flags (lastOfFlags third))
      (withoutFlags (flags third) (lastOfFlags second)) =
        withoutFlags (flags third) (lastOfFlags second) := by
    refine withoutFlags_eq_self _ _ fun flag hflag => ?_
    rw [mem_flags_lastOfFlags]
    exact ((mem_flags_withoutFlags _ _ _).1 hflag).2
  rw [withoutFlags_congr hflags, lastOfFlags_append, lastOfFlags_withoutFlags, hkept,
    lastOfFlags_eq_self _ (nodup_flags_lastOfFlags third), withoutFlags_append,
    withoutFlags_withoutFlags, List.append_assoc]

/-- Maps can be merged all at once or some after the others. -/
theorem mergeGiven_append (base : Option OptionMap) (laters more : List (Option OptionMap)) :
    mergeGiven base (laters ++ more) = mergeGiven (some (mergeGiven base laters)) more := by
  simp only [mergeGiven, merge, List.map_append, List.foldl_append, Option.getD_some]

/-- A map has no more effect when it is merged twice. -/
theorem mergeGiven_twice (base later : Option OptionMap) :
    mergeGiven base [later, later] = mergeGiven base [later] := by
  apply eq_of_entries
  simp only [entries_mergeGiven, entriesOf, List.flatMap_cons, List.flatMap_nil, List.append_nil]
  rw [lastOfFlags_append, withoutFlags_lastOfFlags_self, List.nil_append]
  congr 1
  refine withoutFlags_congr (fun flag => ?_) _
  rw [flags_append, List.mem_append, or_self]

theorem nodup_flags_mergeGiven {base : Option OptionMap}
    (h : (flags (base.getD .empty).entries).Nodup) (laters : List (Option OptionMap)) :
    (flags (mergeGiven base laters).entries).Nodup := by
  have hsublist : (flags (withoutFlags (flags (entriesOf laters))
      (base.getD .empty).entries)).Sublist (flags (base.getD .empty).entries) :=
    List.Sublist.map _ List.filter_sublist
  rw [entries_mergeGiven, flags_append, List.nodup_append]
  refine ⟨hsublist.nodup h, nodup_flags_lastOfFlags _, ?_⟩
  rintro flag hkept _ hlast rfl
  exact ((mem_flags_withoutFlags _ _ _).1 hkept).2 ((mem_flags_lastOfFlags _ _).1 hlast)

/-- A merge leaves the base entries whose flag no later map names, in their order, and behind them
the last entry of each flag from the later maps. So a lookup finds the last entry that was put over
the base, or else that of the base; merging is associative, a map merged twice counts once, and no
flag is named twice if the base names none twice. -/
theorem mergeGiven_laws (base : Option OptionMap) (laters : List (Option OptionMap)) :
    (mergeGiven base laters).entries =
        withoutFlags (flags (entriesOf laters)) (base.getD .empty).entries ++
          lastOfFlags (entriesOf laters) ∧
      (∀ key, (mergeGiven base laters).find? key =
        (((entriesOf laters).filter (hasFlag (flagName key))).getLast?.map Prod.snd).or
          ((base.getD .empty).find? key)) ∧
      (∀ middle last, mergeGiven base [some (mergeGiven middle [last])] =
        mergeGiven (some (mergeGiven base [middle])) [last]) ∧
      (∀ later, mergeGiven base [later, later] = mergeGiven base [later] ∧
        mergeGiven (some (mergeGiven base [later])) [later] = mergeGiven base [later]) ∧
      ((flags (base.getD .empty).entries).Nodup →
        (flags (mergeGiven base laters).entries).Nodup) :=
  ⟨entries_mergeGiven base laters, find?_mergeGiven base laters, mergeGiven_assoc base,
    fun later => ⟨mergeGiven_twice base later,
      (mergeGiven_append base [later] [later]).symm.trans (mergeGiven_twice base later)⟩,
    fun h => nodup_flags_mergeGiven h laters⟩

/-- Another spelling of a flag takes the place of the one in the base. -/
theorem mergeGiven_laws_spellings :
    (flags (mergeGiven (some (.ofPairs [("show-errors", .int 2)]))
      [none, some (.ofPairs [("showErrors", .int 6)])]).entries).Nodup ∧
      (mergeGiven (some (.ofPairs [("show-errors", .int 2)]))
        [none, some (.ofPairs [("showErrors", .int 6)])]).entries = [("showErrors", .int 6)] := by
  have hlaws := mergeGiven_laws (some (.ofPairs [("show-errors", .int 2)]))
    [none, some (.ofPairs [("showErrors", .int 6)])]
  exact ⟨hlaws.2.2.2.2 (List.nodup_singleton _), hlaws.1.trans rfl⟩

end MarkupTidy.OptionMap
