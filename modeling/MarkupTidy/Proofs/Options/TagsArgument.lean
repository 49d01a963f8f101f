import MarkupTidy.Proofs.CustomTags
import MarkupTidy.Proofs.Options.FlagCounts
import MarkupTidy.Proofs.Options.Unsupported

/-!
The list of block-level tags in the arguments of a request. A request puts nothing over the list but
the one that derives from its text, and this is what the options name, followed by the custom
elements of the text that it lacks. So an engine is given the list once, with all that was in it and
all that the text asks for.
-/
namespace MarkupTidy

namespace OptionMap

/-- The values of a flag in an argument vector. -/
def valuesOf (flag : String) : List String → List String
  | name :: value :: rest =>
    if name = flag then value :: valuesOf flag rest else valuesOf flag rest
  | _ => []

/-- The values of a flag in the arguments are those of its entries. -/
theorem valuesOf_of_renders (flag : String) {entries : List (String × Value)}
    {pairs : List (String × String)} (h : List.Forall₂ Renders entries pairs) :
    List.Forall₂ (fun entry s => encodeValue entry.1 entry.2 = .ok s)
      (entries.filter (hasFlag flag)) (valuesOf flag (words pairs)) := by
  induction h with
  | nil => exact .nil
  | @cons entry pair entries pairs hpair _ ih =>
    have hwords : words (pair :: pairs) = pair.1 :: pair.2 :: words pairs := rfl
    rw [hwords, valuesOf, hpair.1]
    by_cases hflag : flagName entry.1 = flag
    · rw [if_pos hflag, List.filter_cons_of_pos (by simp [hasFlag, hflag])]
      exact .cons hpair.2 ih
    · rw [if_neg hflag, List.filter_cons_of_neg (by simp [hasFlag, hflag])]
      exact ih

theorem valuesOf_arguments (flag : String) {map : OptionMap} {arguments : List String}
    (h : map.arguments = .ok arguments) :
    List.Forall₂ (fun entry s => encodeValue entry.1 entry.2 = .ok s)
      (present (map.entries.filter (hasFlag flag))) (valuesOf flag arguments) := by
  obtain ⟨pairs, hpairs, rfl⟩ := (argumentsOf_eq_ok_iff _ _).1 h
  have hvalues := valuesOf_of_renders flag hpairs
  rwa [present, List.filter_comm, ← present] at hvalues

/-- A flag with one entry has one value in the arguments. -/
theorem valuesOf_sole {map : OptionMap} {arguments : List String}
    (h : map.arguments = .ok arguments) {key s : String} (hkey : key ≠ "")
    (hsole : map.IsSole key (.text s)) : valuesOf (flagName key) arguments = [s] := by
  have hpresent : present [(key, Value.text s)] = [(key, .text s)] :=
    List.filter_cons_of_pos (by simp [isUnset, hkey, Value.isNull])
  have hvalues := valuesOf_arguments (flagName key) h
  rw [hsole, hpresent] at hvalues
  obtain ⟨value, rest, hvalue, hrest, hsplit⟩ := List.forall₂_cons_left_iff.1 hvalues
  rw [hsplit, List.forall₂_nil_left_iff.1 hrest, ← Except.ok.inj hvalue]

/-- A flag whose entries are all without a value has none in the arguments. -/
theorem valuesOf_unset {map : OptionMap} {arguments : List String}
    (h : map.arguments = .ok arguments) {flag : String}
    (hnone : present (map.entries.filter (hasFlag flag)) = []) : valuesOf flag arguments = [] := by
  have hvalues := valuesOf_arguments flag h
  rw [hnone] at hvalues
  exact List.forall₂_nil_left_iff.1 hvalues

theorem exists_arguments {map : OptionMap} (h : ∀ entry ∈ map.entries, Passes entry) :
    ∃ arguments, map.arguments = .ok arguments := by
  cases harguments : map.arguments with
  | ok arguments => exact ⟨arguments, rfl⟩
  | error fault =>
    obtain ⟨before, entry, behind, hsplit, -, hset, hfault⟩ :=
      (argumentsOf_eq_error_iff map.entries fault).1 harguments
    exact absurd (h entry (by simp [hsplit])) (not_passes hset hfault)

/-- What holds of the entries of two maps holds of those of their merge. -/
theorem forall_mem_mergeOne {base later : OptionMap} (hnodup : (flags later.entries).Nodup)
    {p : String × Value → Prop} (hbase : ∀ entry ∈ base.entries, p entry)
    (hlater : ∀ entry ∈ later.entries, p entry) :
    ∀ entry ∈ (base.mergeOne later).entries, p entry := by
  rw [entries_mergeOne_of_nodup base later hnodup]
  exact List.forall_mem_append.2
    ⟨fun entry hentry => hbase entry (List.mem_filter.1 hentry).1, hlater⟩

end OptionMap

namespace DerivedOptions

open OptionMap

/-- The options with which a format request and a lint request start an engine. -/
def requestOptions (options : OptionMap) : List OptionMap :=
  [options.withFixed, (Runner.forReport options).withFixed]

/-- Options that were merged on have the same list of block-level tags, and no entry is refused
that was not refused before. -/
structure KeepsTags (options merged : OptionMap) : Prop where
  tags : merged.entries.filter (hasFlag (flagName blocklevelTags)) =
    options.entries.filter (hasFlag (flagName blocklevelTags))
  passes : (∀ entry ∈ options.entries, Passes entry) → ∀ entry ∈ merged.entries, Passes entry

theorem KeepsTags.mergeOne {options merged later : OptionMap} (h : KeepsTags options merged)
    (hnodup : (flags later.entries).Nodup) (hother : flagName blocklevelTags ∉ flags later.entries)
    (hlater : ∀ entry ∈ later.entries, Passes entry) :
    KeepsTags options (merged.mergeOne later) where
  tags := by rw [filter_hasFlag_mergeOne merged hnodup, if_neg hother, h.tags]
  passes := fun hoptions => forall_mem_mergeOne hnodup (h.passes hoptions) hlater

theorem KeepsTags.withFixed {options merged : OptionMap} (h : KeepsTags options merged) :
    KeepsTags options merged.withFixed :=
  h.mergeOne (by decide) (by decide) passes_fixed

theorem keepsTags_forReport (options : OptionMap) :
    KeepsTags options (Runner.forReport options) := by
  refine KeepsTags.mergeOne ⟨rfl, id⟩ (by decide) (by decide) fun entry hentry => ?_
  rw [List.mem_singleton.1 hentry]
  exact Or.inr ⟨"10", rfl⟩

theorem keepsTags_request {options request : OptionMap} (h : request ∈ requestOptions options) :
    KeepsTags options request := by
  rcases List.mem_cons.1 h with rfl | hlint
  · exact KeepsTags.withFixed ⟨rfl, id⟩
  · rw [List.mem_singleton.1 hlint]
    exact (keepsTags_forReport options).withFixed

/-- Options of which the arguments can be written have a list of tags that can be read. -/
theorem exists_derive (text : String) (settings : Settings) {base : OptionMap}
    (hbase : ∀ entry ∈ base.entries, Passes entry) :
    ∃ derived, derive text base settings = .ok derived := by
  cases hderive : derive text base settings with
  | ok derived => exact ⟨derived, rfl⟩
  | error fault =>
    obtain ⟨-, -, tags, htags, hset, hlong⟩ := (derive_eq_error_iff ..).1 hderive
    obtain ⟨entry, hfound, rfl⟩ := Option.map_eq_some_iff.1 htags
    have hflag := List.find?_some hfound
    -- A list is refused for a long number, with which the arguments would be refused as well.
    rcases hbase entry (List.mem_of_find?_eq_some hfound) with hunset | ⟨s, hs⟩
    · rcases Bool.or_eq_true_iff.1 hunset with hname | hnull
      · rw [hasFlag, String.isEmpty_iff.1 hname] at hflag
        exact absurd hflag (by decide)
      · cases hvalue : entry.2 <;> simp [hvalue, Value.isNull, Value.isSet] at hnull hset
    · rw [(encodeValue_eq_tooLong_iff _ _).2 hlong] at hs
      cases hs

/-- The entries for the list of tags behind a run: the one that derives, or those that were there
where neither the options nor the text has anything to list. -/
theorem filter_tags_merged {text : String} {settings : Settings} {base derived : OptionMap}
    (hdynamic : settings.dynamicTags = true) (hderive : derive text base settings = .ok derived)
    {current : List Char} (hcurrent : setText (base.find? blocklevelTags) = .ok current) :
    (base.mergeOne derived).entries.filter (hasFlag (flagName blocklevelTags)) =
      if CustomTags.extend text.toList current = [] then
        base.entries.filter (hasFlag (flagName blocklevelTags))
      else [(blocklevelTags, .text (String.ofList (CustomTags.extend text.toList current)))] := by
  obtain ⟨tags, htags, hentries⟩ := entries_derive hderive
  have hnodup := nodup_derive hderive
  obtain ⟨same, hsame, rfl⟩ := deriveTags_eq_ok hdynamic htags
  obtain rfl : current = same := Except.ok.inj (hcurrent.symm.trans hsame)
  split
  · next hnone =>
    -- Nothing derives for the list, and what derives besides has other flags.
    rw [hnone, List.isEmpty_nil, if_pos rfl, List.nil_append] at hentries
    rw [filter_hasFlag_mergeOne base hnodup, if_neg]
    intro hflag
    rw [hentries, flags, List.map_append, ← flags, ← flags] at hflag
    rcases List.mem_append.1 hflag with hbody | herrors
    · exact flagName_tags_ne_body ((mem_flags_deriveBody_iff ..).1 hbody).2
    · exact flagName_tags_ne_errors ((mem_flags_deriveErrors_iff ..).1 herrors).2
  · next hsome =>
    refine isSole_mergeOne base hnodup ?_
    simp [hentries, hsome]

/-- Entries of which at most one has the flag, and that one no value, leave the flag out. -/
theorem present_filter_of_unset {base : OptionMap} {key : String}
    (honce : (flags base.entries).count (flagName key) ≤ 1)
    (hunset : base.find? key = none ∨ base.find? key = some .null) :
    present (base.entries.filter (hasFlag (flagName key))) = [] := by
  rw [count_flags, List.countP_eq_length_filter] at honce
  rw [find?_eq_head?] at hunset
  cases hfilter : base.entries.filter (hasFlag (flagName key)) with
  | nil => rfl
  | cons entry rest =>
    rw [hfilter] at honce hunset
    obtain rfl : rest = [] := List.length_eq_zero_iff.1 (by simpa using honce)
    have hnull : entry.2 = .null := by simpa using hunset
    simp [present, isUnset, hnull, Value.isNull]

/-- The text of a list of tags with further names. -/
def listText (existing : String) (names : List (List Char)) : String :=
  if names = [] then existing else existing ++ " " ++ String.ofList (List.intercalate [' '] names)

theorem ofList_listWith {existing : String} (hexisting : existing ≠ "") {names : List (List Char)}
    (hnames : ∀ name ∈ names, name ≠ []) :
    String.ofList (CustomTags.listWith existing.toList names) = listText existing names := by
  have hlist : existing.toList ≠ [] := by simpa using hexisting
  rw [listText]
  split
  · next hnone => rw [hnone, CustomTags.listWith_nil, String.ofList_toList]
  · next hsome =>
    rw [CustomTags.listWith_cons hlist (mt (CustomTags.intercalate_eq_nil_iff hnames).1 hsome)]
    rw [← String.toList_inj]
    simp

theorem lacking_nil (text : List Char) : CustomTags.lacking text [] = CustomTags.find text := by
  simp [CustomTags.lacking, Text.words, Text.pieces]

theorem ne_nil_of_mem_lacking {text existing name : List Char}
    (h : name ∈ CustomTags.lacking text existing) : name ≠ [] :=
  CustomTags.ne_nil_of_mem_find (List.mem_filter.1 h).1

/-- Where the options list tags, every request has this list, followed by the custom elements of the
text that it lacks. -/
theorem tags_value_of_listed {text : String} {settings : Settings} {base derived : OptionMap}
    (hdynamic : settings.dynamicTags = true) (hderive : derive text base settings = .ok derived)
    {request : OptionMap} (hrequest : request ∈ requestOptions (base.mergeOne derived))
    {arguments : List String} (harguments : request.arguments = .ok arguments) {existing : String}
    (hlisted : base.find? blocklevelTags = some (.text existing)) (hne : existing ≠ "") :
    valuesOf (flagName blocklevelTags) arguments =
      [listText existing (CustomTags.lacking text.toList existing.toList)] := by
  have hlist : existing.toList ≠ [] := by simpa using hne
  have hcurrent : setText (base.find? blocklevelTags) = .ok existing.toList := by
    rw [hlisted, ← setText_some_text hlist, String.ofList_toList]
  have hsome : CustomTags.extend text.toList existing.toList ≠ [] :=
    fun hnil => hlist ((CustomTags.extend_eq_nil_iff _ _).1 hnil).1
  have hsole : request.IsSole blocklevelTags
      (.text (String.ofList (CustomTags.extend text.toList existing.toList))) := by
    rw [IsSole, (keepsTags_request hrequest).tags, filter_tags_merged hdynamic hderive hcurrent,
      if_neg hsome]
  rw [valuesOf_sole harguments (by decide) hsole, CustomTags.extend_eq_listWith,
    ofList_listWith hne fun _ => ne_nil_of_mem_lacking]

/-- Where the options list no tags, every request has the custom elements of the text, and no list
where there are none. -/
theorem tags_value_of_unlisted {text : String} {settings : Settings} {base derived : OptionMap}
    (hdynamic : settings.dynamicTags = true) (hderive : derive text base settings = .ok derived)
    {request : OptionMap} (hrequest : request ∈ requestOptions (base.mergeOne derived))
    {arguments : List String} (harguments : request.arguments = .ok arguments)
    (honce : (flags base.entries).count (flagName blocklevelTags) ≤ 1)
    (hunset : base.find? blocklevelTags = none ∨ base.find? blocklevelTags = some .null) :
    valuesOf (flagName blocklevelTags) arguments =
      if CustomTags.find text.toList = [] then []
      else [String.ofList (List.intercalate [' '] (CustomTags.find text.toList))] := by
  have hcurrent : setText (base.find? blocklevelTags) = .ok [] := by
    rcases hunset with hnone | hnull
    · rw [hnone]
      rfl
    · rw [hnull]
      rfl
  have hextend : CustomTags.extend text.toList [] =
      List.intercalate [' '] (CustomTags.find text.toList) := by
    rw [CustomTags.extend_eq_listWith, CustomTags.listWith_empty, lacking_nil]
  have hnone := CustomTags.extend_eq_nil_iff text.toList []
  rw [eq_self, true_and] at hnone
  have htags := filter_tags_merged hdynamic hderive hcurrent
  rw [← (keepsTags_request hrequest).tags] at htags
  split
  · next hempty =>
    rw [if_pos (hnone.2 hempty)] at htags
    exact valuesOf_unset harguments (htags ▸ present_filter_of_unset honce hunset)
  · next hsome =>
    rw [if_neg (mt hnone.1 hsome)] at htags
    rw [valuesOf_sole harguments (by decide) htags, hextend]

/-- Every request over options that can be written starts its engine with the list of block-level
tags once, if at all: what the options list comes first, the custom elements of the text that it
lacks behind it, each once and in the order of the text. Where the options have no such list, it is
made of the custom elements alone, and is left out exactly if there are none. -/
theorem tags_argument_listed (text : String) {settings : Settings} {base : OptionMap}
    {given : List String} (hdynamic : settings.dynamicTags = true)
    (hgiven : base.arguments = .ok given)
    (honce : (flags base.entries).count "--new-blocklevel-tags" ≤ 1) :
    ∃ derived forFormat forLint, derive text base settings = .ok derived ∧
      (base.mergeOne derived).withFixed.arguments = .ok forFormat ∧
      Runner.LaunchesWith (base.mergeOne derived) forFormat ∧
      (Runner.forReport (base.mergeOne derived)).withFixed.arguments = .ok forLint ∧
      Runner.CollectsWith (base.mergeOne derived) forLint ∧
      ∀ arguments ∈ [forFormat, forLint],
        (∀ existing, base.find? blocklevelTags = some (.text existing) → existing ≠ "" →
          valuesOf "--new-blocklevel-tags" arguments =
              [listText existing (CustomTags.lacking text.toList existing.toList)] ∧
            (CustomTags.lacking text.toList existing.toList).Nodup ∧
            (CustomTags.lacking text.toList existing.toList).Pairwise
              (CustomTags.ComesFirst text.toList)) ∧
        (base.find? blocklevelTags = none ∨ base.find? blocklevelTags = some .null →
          valuesOf "--new-blocklevel-tags" arguments =
            if CustomTags.find text.toList = [] then []
            else [String.ofList (List.intercalate [' '] (CustomTags.find text.toList))]) := by
  have hflag : flagName blocklevelTags = "--new-blocklevel-tags" := by decide
  have hbase := passes_of_argumentsOf hgiven
  obtain ⟨derived, hderive⟩ := exists_derive text settings hbase
  have hmerged : ∀ entry ∈ (base.mergeOne derived).entries, Passes entry :=
    forall_mem_mergeOne (nodup_derive hderive) hbase (passes_derive hderive)
  have hwritten : ∀ request ∈ requestOptions (base.mergeOne derived),
      ∃ arguments, request.arguments = .ok arguments := fun request hrequest =>
    exists_arguments ((keepsTags_request hrequest).passes hmerged)
  obtain ⟨forFormat, hformat⟩ := hwritten _ List.mem_cons_self
  obtain ⟨forLint, hlint⟩ := hwritten _ (List.mem_cons_of_mem _ List.mem_cons_self)
  refine ⟨derived, forFormat, forLint, hderive, hformat, Runner.launchesWith_of_arguments hformat,
    hlint, Runner.collectsWith_of_arguments hlint, fun arguments hmem => ?_⟩
  obtain ⟨request, hrequest, harguments⟩ : ∃ request ∈ requestOptions (base.mergeOne derived),
      request.arguments = .ok arguments := by
    rcases List.mem_cons.1 hmem with rfl | hlast
    · exact ⟨_, List.mem_cons_self, hformat⟩
    · rw [List.mem_singleton.1 hlast]
      exact ⟨_, List.mem_cons_of_mem _ List.mem_cons_self, hlint⟩
  refine ⟨fun existing hlisted hne => ⟨?_, ?_, ?_⟩, fun hunset => ?_⟩
  · exact hflag ▸ tags_value_of_listed hdynamic hderive hrequest harguments hlisted hne
  · exact (CustomTags.nodup_find _).filter _
  · exact (CustomTags.pairwise_find _).filter _
  · rw [← hflag] at honce ⊢
    exact tags_value_of_unlisted hdynamic hderive hrequest harguments honce hunset

/-- Options that list two tags, one of them in the text, under the hyphenated name. -/
def hyphenatedTags : OptionMap :=
  .ofPairs [("new-blocklevel-tags", .text "x-a,x-c"), ("indent", .text "auto")]

/-- The requests over them, for a text with two custom elements. -/
theorem tags_argument_hyphenated :
    ∃ derived forFormat forLint, derive "<x-b><x-a>" hyphenatedTags {} = .ok derived ∧
      Runner.LaunchesWith (hyphenatedTags.mergeOne derived) forFormat ∧
      Runner.CollectsWith (hyphenatedTags.mergeOne derived) forLint ∧
      ∀ arguments ∈ [forFormat, forLint],
        valuesOf "--new-blocklevel-tags" arguments = ["x-a,x-c x-b"] := by
  obtain ⟨derived, forFormat, forLint, hderive, -, hlaunches, -, hcollects, hlaw⟩ :=
    @tags_argument_listed "<x-b><x-a>" {} hyphenatedTags _ rfl rfl (by decide)
  refine ⟨derived, forFormat, forLint, hderive, hlaunches, hcollects, fun arguments hmem => ?_⟩
  obtain ⟨hvalue, -⟩ := (hlaw arguments hmem).1 "x-a,x-c" rfl (by decide)
  exact hvalue.trans (by decide)

end DerivedOptions

end MarkupTidy
