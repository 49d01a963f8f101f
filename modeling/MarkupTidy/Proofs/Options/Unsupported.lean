import MarkupTidy.Proofs.Options.LongNumbers
import MarkupTidy.Proofs.Options.Rederived

/-!
Values that no argument can hold: lists, tables, dates and times. Such a value in the options of a
document is refused by name, unless the run puts an entry of its own in place of its flag. One of
those entries is the list of block-level tags, which begins with the text of the value that stood
there, of whatever kind; so an unsupported value in this place becomes an argument.
-/
namespace MarkupTidy

theorem Notation.write_ne_nil (n : Notation) (d : Decimal) : n.write d ≠ [] := by
  obtain ⟨first, more, hdigits⟩ := List.exists_cons_of_ne_nil
    (Nat.toDigits_ne_nil (n := d.digits) (b := 10))
  simp only [Notation.write, Notation.decimalDigits, hdigits]
  cases d.negative with
  | true => simp
  | false =>
    simp only [Bool.false_eq_true, if_false]
    split
    · split
      · simp
      · split <;> simp
    · cases more <;> simp

theorem Binary64.text_ne_empty (x : Binary64) : x.text.toList ≠ [] := by
  cases x with
  | finite => simpa [text, writeWith] using Notation.write_ne_nil _ _
  | infinite negative => cases negative <;> decide
  | notANumber => decide

namespace Value

/-- No argument can hold the value. -/
def isUnsupported : Value → Bool
  | .list _ | .table _ | .date _ | .time _ | .moment _ => true
  | .null | .bool _ | .int _ | .float _ | .text _ => false

theorem isNull_of_isUnsupported {value : Value} (h : value.isUnsupported = true) :
    value.isNull = false := by
  cases value <;> first | rfl | cases h

/-- A value that counts as set has a text that is not empty, if it has one. -/
theorem plainText?_ne_empty {value : Value} (hset : value.isSet = true) {s : String}
    (hs : value.plainText? = some s) : s.toList ≠ [] := by
  cases value with
  | null => cases hset
  | bool b =>
    cases hs
    cases b <;> decide
  | int i =>
    rw [integerText?_eq_some hs]
    cases i <;> simp [toString, Int.repr]
  | float x =>
    cases hs
    exact x.text_ne_empty
  | text s =>
    cases hs
    simpa [isSet] using hset
  | list items =>
    simp only [plainText?, display?, Option.bind_eq_bind, Option.bind_eq_some_iff,
      Option.some.injEq] at hs
    obtain ⟨parts, -, rfl⟩ := hs
    simp
  | table entries =>
    simp only [plainText?, display?, Option.bind_eq_bind, Option.bind_eq_some_iff,
      Option.some.injEq] at hs
    obtain ⟨parts, -, rfl⟩ := hs
    simp
  | date d =>
    cases hs
    simp [Date.text]
  | time t =>
    cases hs
    simp [TimeOfDay.text]
  | moment m =>
    cases hs
    simp [Moment.text]

end Value

theorem encodeValue_of_isUnsupported (key : String) {value : Value}
    (h : value.isUnsupported = true) : encodeValue key value = .error (refuseValue key value) := by
  cases value <;> first | rfl | cases h

theorem isUnsupported_of_encodeValue {key : String} {value : Value} (hnull : value.isNull = false)
    {other : String} {shown : Value}
    (h : encodeValue key value = .error (.unsupported other shown)) :
    value.isUnsupported = true := by
  cases value with
  | null => cases hnull
  | int i =>
    simp only [encodeValue] at h
    split at h <;> cases h
  | bool | float | text => cases h
  | _ => rfl

/-- The fault that names a value is for a value that no argument can hold. -/
theorem encodeValue_eq_unsupported_iff {key : String} {value : Value}
    (hnull : value.isNull = false) (other : String) (shown : Value) :
    encodeValue key value = .error (.unsupported other shown) ↔
      (key = other ∧ value = shown) ∧ value.isUnsupported = true ∧ ¬ value.HasLongNumber := by
  constructor
  · intro h
    refine ⟨?_, isUnsupported_of_encodeValue hnull h, fun hlong => ?_⟩
    · rcases encodeValue_eq_error h with hlong | hnamed
      · cases hlong
      · cases hnamed
        exact ⟨rfl, rfl⟩
    · rw [(encodeValue_eq_tooLong_iff key value).2 hlong] at h
      cases h
  · rintro ⟨⟨rfl, rfl⟩, hunsupported, hshort⟩
    have hshown : value.display?.isSome = true :=
      Option.ne_none_iff_isSome.1 (mt (Value.display?_eq_none_iff value).1 hshort)
    rw [encodeValue_of_isUnsupported key hunsupported, refuseValue, if_pos hshown]

namespace OptionMap

theorem isUnset_eq_false_iff (entry : String × Value) :
    isUnset entry = false ↔ entry.1 ≠ "" ∧ entry.2.isNull = false := by
  simp [isUnset]

theorem not_passes {entry : String × Value} {fault : Fault} (hset : isUnset entry = false)
    (hfault : encodeValue entry.1 entry.2 = .error fault) : ¬ Passes entry := by
  rintro (hunset | ⟨s, hs⟩)
  · cases hset.symm.trans hunset
  · cases hfault.symm.trans hs

/-- Entries that pass at the end of the arguments change nothing about a refusal. -/
theorem argumentsOf_append_eq_error_iff (entries : List (String × Value))
    {behind : List (String × Value)} (hbehind : ∀ entry ∈ behind, Passes entry) (fault : Fault) :
    argumentsOf (entries ++ behind) = .error fault ↔ argumentsOf entries = .error fault := by
  rw [argumentsOf_eq_error_iff, argumentsOf_eq_error_iff]
  constructor
  · rintro ⟨before, entry, rest, hsplit, hbefore, hset, hfault⟩
    have hstops : entry ∉ behind := fun hmem => not_passes hset hfault (hbehind entry hmem)
    rcases List.append_eq_append_iff.1 hsplit with ⟨more, -, rfl⟩ | ⟨more, rfl, hmore⟩
    · exact absurd (List.mem_append_right _ List.mem_cons_self) hstops
    · cases more with
      | nil =>
        rw [List.nil_append] at hmore
        exact absurd (hmore ▸ List.mem_cons_self) hstops
      | cons next more =>
        cases hmore
        exact ⟨before, entry, more, rfl, hbefore, hset, hfault⟩
  · rintro ⟨before, entry, rest, rfl, hrest⟩
    exact ⟨before, entry, rest ++ behind, by simp, hrest⟩

/-- The first entry that is neither taken out nor passes decides. -/
theorem argumentsOf_withoutFlags_eq_error_iff (removed : List String)
    (entries : List (String × Value)) (fault : Fault) :
    argumentsOf (withoutFlags removed entries) = .error fault ↔
      ∃ before entry behind, entries = before ++ entry :: behind ∧
        (∀ earlier ∈ before, flagName earlier.1 ∈ removed ∨ Passes earlier) ∧
        flagName entry.1 ∉ removed ∧ isUnset entry = false ∧
        encodeValue entry.1 entry.2 = .error fault := by
  rw [argumentsOf_eq_error_iff]
  constructor
  · rintro ⟨before, entry, behind, hsplit, hbefore, hset, hfault⟩
    obtain ⟨front, back, rfl, rfl, hback⟩ := List.filter_eq_append_iff.1 hsplit
    obtain ⟨skipped, rest, rfl, hskipped, hkept, -⟩ := List.filter_eq_cons_iff.1 hback
    refine ⟨front ++ skipped, entry, rest, by simp, fun earlier hearlier => ?_,
      by simpa using hkept, hset, hfault⟩
    rcases List.mem_append.1 hearlier with hfront | hmem
    · by_cases hremoved : flagName earlier.1 ∈ removed
      · exact Or.inl hremoved
      · exact Or.inr (hbefore earlier (List.mem_filter.2 ⟨hfront, by simpa using hremoved⟩))
    · exact Or.inl (by simpa using hskipped earlier hmem)
  · rintro ⟨before, entry, behind, rfl, hbefore, hkept, hset, hfault⟩
    refine ⟨withoutFlags removed before, entry, withoutFlags removed behind, ?_, ?_, hset, hfault⟩
    · simp [withoutFlags, hkept]
    · intro earlier hearlier
      obtain ⟨hmem, hother⟩ := List.mem_filter.1 hearlier
      exact (hbefore earlier hmem).resolve_left (by simpa using hother)

theorem passes_of_argumentsOf {entries : List (String × Value)} {arguments : List String}
    (h : argumentsOf entries = .ok arguments) : ∀ entry ∈ entries, Passes entry := by
  induction entries generalizing arguments with
  | nil => simp
  | cons entry rest ih =>
    rw [List.forall_mem_cons]
    cases hunset : isUnset entry with
    | true =>
      rw [argumentsOf_cons_unset rest hunset] at h
      exact ⟨Or.inl hunset, ih h⟩
    | false =>
      cases hvalue : encodeValue entry.1 entry.2 with
      | error fault =>
        rw [argumentsOf_cons_error rest hunset hvalue] at h
        cases h
      | ok s =>
        rw [argumentsOf_cons_ok rest hunset hvalue] at h
        cases hrest : argumentsOf rest with
        | error fault => simp [hrest, Except.map] at h
        | ok others => exact ⟨Or.inr ⟨s, hvalue⟩, ih hrest⟩

theorem passes_fixed : ∀ entry ∈ fixed.entries, Passes entry :=
  passes_of_argumentsOf argumentsOf_fixed

end OptionMap

namespace DerivedOptions

open OptionMap

/-- The arguments of a run with a text over some options. -/
def argumentsFor (text : String) (settings : Settings) (base : OptionMap) :
    Except Fault (List String) :=
  rederive text settings base >>= fun options => options.withFixed.arguments

/-- A run puts an entry of its own in place of those of the flag. -/
inductive Replaces (text : String) (settings : Settings) (base : OptionMap) : String → Prop
  | fixed {flag : String} (h : flag ∈ fixedFlags) : Replaces text settings base flag
  | body (h : settings.dynamicBody = true) : Replaces text settings base (flagName showBodyOnly)
  | errors (h : settings.showErrors = true)
    (hunset : (base.find? showErrors).any Value.isSet = false) :
    Replaces text settings base (flagName showErrors)
  | tags (h : settings.dynamicTags = true)
    (hlist : (base.find? blocklevelTags).any Value.isSet = true ∨
      CustomTags.find text.toList ≠ []) :
    Replaces text settings base (flagName blocklevelTags)

theorem setText_eq_nil_iff {value : Option Value} {s : List Char} (h : setText value = .ok s) :
    s = [] ↔ value.any Value.isSet = false := by
  cases value with
  | none =>
    cases h
    simp
  | some value =>
    simp only [setText] at h
    cases hset : value.isSet with
    | false =>
      rw [hset] at h
      cases h
      simp [hset]
    | true =>
      cases htext : value.plainText? with
      | none => simp [hset, htext] at h
      | some t =>
        simp only [hset, htext, if_true, Except.ok.injEq] at h
        subst h
        simpa [hset] using Value.plainText?_ne_empty hset htext

theorem mem_flags_deriveBody_iff (text : List Char) (settings : Settings) (flag : String) :
    flag ∈ flags (deriveBody text settings) ↔
      settings.dynamicBody = true ∧ flag = flagName showBodyOnly := by
  unfold deriveBody
  cases settings.dynamicBody <;> simp [flags]

theorem mem_flags_deriveErrors_iff (base : OptionMap) (settings : Settings) (flag : String) :
    flag ∈ flags (deriveErrors base settings) ↔
      (settings.showErrors = true ∧ (base.find? showErrors).any Value.isSet = false) ∧
        flag = flagName showErrors := by
  unfold deriveErrors
  cases settings.showErrors <;> cases (base.find? showErrors).any Value.isSet <;> simp [flags]

theorem mem_flags_deriveTags_iff {text : List Char} {base : OptionMap} {settings : Settings}
    {tags : List (String × Value)} (h : deriveTags text base settings = .ok tags) (flag : String) :
    flag ∈ flags tags ↔
      (settings.dynamicTags = true ∧ ((base.find? blocklevelTags).any Value.isSet = true ∨
        CustomTags.find text ≠ [])) ∧ flag = flagName blocklevelTags := by
  cases hdynamic : settings.dynamicTags with
  | false =>
    simp only [deriveTags, hdynamic, Bool.false_eq_true, if_false, Except.ok.injEq] at h
    simp [← h, flags]
  | true =>
    obtain ⟨current, hcurrent, rfl⟩ := deriveTags_eq_ok hdynamic h
    have hset := setText_eq_nil_iff hcurrent
    have hnone := CustomTags.extend_eq_nil_iff text current
    rw [hset] at hnone
    split
    · next hempty =>
      obtain ⟨hunset, hfind⟩ := hnone.1 (List.isEmpty_iff.1 hempty)
      simp [flags, hunset, hfind]
    · next hsome =>
      rw [List.isEmpty_iff, hnone, not_and_or, Bool.not_eq_false] at hsome
      simp [flags, hsome]

/-- The flags of what derives and the fixed ones are those that a run replaces. -/
theorem mem_flags_derive_iff {text : String} {settings : Settings} {base derived : OptionMap}
    (h : derive text base settings = .ok derived) (flag : String) :
    flag ∈ flags derived.entries ++ fixedFlags ↔ Replaces text settings base flag := by
  obtain ⟨tags, htags, hentries⟩ := entries_derive h
  have hparts : flag ∈ flags derived.entries ↔
      (flag ∈ flags tags ∨ flag ∈ flags (deriveBody text.toList settings)) ∨
        flag ∈ flags (deriveErrors base settings) := by
    rw [hentries, flags, List.map_append, List.map_append, List.mem_append, List.mem_append]
    rfl
  rw [List.mem_append, hparts, mem_flags_deriveTags_iff htags, mem_flags_deriveBody_iff,
    mem_flags_deriveErrors_iff]
  constructor
  · rintro (((⟨⟨hdynamic, hlist⟩, rfl⟩ | ⟨hdynamic, rfl⟩) | ⟨⟨hshow, hunset⟩, rfl⟩) | hfixed)
    · exact .tags hdynamic hlist
    · exact .body hdynamic
    · exact .errors hshow hunset
    · exact .fixed hfixed
  · rintro (hfixed | hdynamic | ⟨hshow, hunset⟩ | ⟨hdynamic, hlist⟩)
    · exact Or.inr hfixed
    · exact Or.inl (Or.inl (Or.inr ⟨hdynamic, rfl⟩))
    · exact Or.inl (Or.inr ⟨⟨hshow, hunset⟩, rfl⟩)
    · exact Or.inl (Or.inl (Or.inl ⟨⟨hdynamic, hlist⟩, rfl⟩))

theorem passes_derive {text : String} {settings : Settings} {base derived : OptionMap}
    (h : derive text base settings = .ok derived) : ∀ entry ∈ derived.entries, Passes entry := by
  obtain ⟨tags, htags, hentries⟩ := entries_derive h
  intro entry hentry
  rw [hentries, List.mem_append, List.mem_append] at hentry
  rcases hentry with (hmem | hmem) | hmem
  · rcases deriveTags_cases htags with rfl | ⟨s, rfl⟩
    · cases hmem
    · rw [List.mem_singleton.1 hmem]
      exact Or.inr ⟨s, rfl⟩
  · unfold deriveBody at hmem
    split at hmem
    · rw [List.mem_singleton.1 hmem]
      exact Or.inr ⟨_, rfl⟩
    · cases hmem
  · unfold deriveErrors at hmem
    split at hmem
    · rw [List.mem_singleton.1 hmem]
      exact Or.inr ⟨"6", rfl⟩
    · cases hmem

theorem argumentsFor_of_error {text : String} {settings : Settings} {base : OptionMap}
    {fault : Fault} (h : derive text base settings = .error fault) :
    argumentsFor text settings base = .error fault := by
  rw [argumentsFor, rederive, h]
  rfl

theorem derive_of_argumentsFor {text : String} {settings : Settings} {base : OptionMap}
    {arguments : List String} (h : argumentsFor text settings base = .ok arguments) :
    ∃ derived, derive text base settings = .ok derived := by
  cases hderive : derive text base settings with
  | ok derived => exact ⟨derived, rfl⟩
  | error fault =>
    rw [argumentsFor_of_error hderive] at h
    cases h

theorem argumentsFor_of_derive {text : String} {settings : Settings} {base derived : OptionMap}
    (h : derive text base settings = .ok derived) :
    argumentsFor text settings base =
      argumentsOf (withoutFlags (flags derived.entries ++ fixedFlags) base.entries ++
        (derived.entries ++ fixed.entries)) := by
  have hflags := flags_derive h
  have hnodup := nodup_derive h
  have hrun : argumentsFor text settings base = (base.mergeOne derived).withFixed.arguments := by
    rw [argumentsFor, rederive, h]
    rfl
  rw [hrun, OptionMap.arguments, entries_withFixed, entries_mergeOne_of_nodup base derived hnodup,
    withoutFlags_append, withoutFlags_withoutFlags,
    Formatter.withoutFlags_fixed_of_subset hflags.subset, List.append_assoc]

/-- Where the tags can be read, the first entry that the run neither replaces nor passes over
decides. -/
theorem argumentsFor_eq_error_iff {text : String} {settings : Settings} {base derived : OptionMap}
    (h : derive text base settings = .ok derived) (fault : Fault) :
    argumentsFor text settings base = .error fault ↔
      ∃ before entry behind, base.entries = before ++ entry :: behind ∧
        (∀ earlier ∈ before, Replaces text settings base (flagName earlier.1) ∨ Passes earlier) ∧
        ¬ Replaces text settings base (flagName entry.1) ∧ isUnset entry = false ∧
        encodeValue entry.1 entry.2 = .error fault := by
  have hpasses : ∀ entry ∈ derived.entries ++ fixed.entries, Passes entry :=
    List.forall_mem_append.2 ⟨passes_derive h, passes_fixed⟩
  rw [argumentsFor_of_derive h, argumentsOf_append_eq_error_iff _ hpasses,
    argumentsOf_withoutFlags_eq_error_iff]
  simp only [mem_flags_derive_iff h]

/-- A value is refused by name exactly if it is unsupported and shown, nothing before it is
refused, the run has no entry for its flag, and the tags could be read. -/
theorem argumentsFor_eq_unsupported_iff (text : String) (settings : Settings) (base : OptionMap)
    (key : String) (value : Value) :
    argumentsFor text settings base = .error (.unsupported key value) ↔
      (∀ tags, settings.dynamicTags = true → base.find? blocklevelTags = some tags →
        tags.isSet = true → ¬ tags.HasLongNumber) ∧
      ∃ before behind, base.entries = before ++ (key, value) :: behind ∧
        (∀ earlier ∈ before, Replaces text settings base (flagName earlier.1) ∨ Passes earlier) ∧
        ¬ Replaces text settings base (flagName key) ∧ key ≠ "" ∧
        value.isUnsupported = true ∧ ¬ value.HasLongNumber := by
  have hderive := derive_eq_error_iff text base settings
  cases hderived : derive text base settings with
  | error fault =>
    obtain ⟨rfl, hdynamic, tags, htags, hset, hlong⟩ := (hderive fault).1 hderived
    rw [argumentsFor_of_error hderived]
    constructor
    · intro h
      cases h
    · exact fun h => absurd hlong (h.1 tags hdynamic htags hset)
  | ok derived =>
    have hread : ∀ tags, settings.dynamicTags = true → base.find? blocklevelTags = some tags →
        tags.isSet = true → ¬ tags.HasLongNumber := by
      intro tags hdynamic htags hset hlong
      have hfault := (hderive _).2 ⟨rfl, hdynamic, tags, htags, hset, hlong⟩
      rw [hderived] at hfault
      cases hfault
    rw [and_iff_right hread, argumentsFor_eq_error_iff hderived]
    constructor
    · rintro ⟨before, ⟨other, shown⟩, behind, hsplit, hbefore, hkept, hset, hfault⟩
      obtain ⟨hkey, hnull⟩ := (isUnset_eq_false_iff _).1 hset
      obtain ⟨⟨rfl, rfl⟩, hunsupported, hshort⟩ :=
        (encodeValue_eq_unsupported_iff hnull key value).1 hfault
      exact ⟨before, behind, hsplit, hbefore, hkept, hkey, hunsupported, hshort⟩
    · rintro ⟨before, behind, hsplit, hbefore, hkept, hkey, hunsupported, hshort⟩
      have hnull := Value.isNull_of_isUnsupported hunsupported
      exact ⟨before, (key, value), behind, hsplit, hbefore, hkept,
        (isUnset_eq_false_iff _).2 ⟨hkey, hnull⟩,
        (encodeValue_eq_unsupported_iff hnull key value).2 ⟨⟨rfl, rfl⟩, hunsupported, hshort⟩⟩

/-- Where there are arguments, the run has replaced every unsupported value that has a name. -/
theorem replaces_of_argumentsFor {text : String} {settings : Settings} {base : OptionMap}
    {arguments : List String} (h : argumentsFor text settings base = .ok arguments)
    {entry : String × Value} (hentry : entry ∈ base.entries) (hkey : entry.1 ≠ "")
    (hvalue : entry.2.isUnsupported = true) :
    Replaces text settings base (flagName entry.1) := by
  obtain ⟨derived, hderived⟩ := derive_of_argumentsFor h
  rw [argumentsFor_of_derive hderived] at h
  by_contra hkept
  rw [← mem_flags_derive_iff hderived] at hkept
  have hmem : entry ∈ withoutFlags (flags derived.entries ++ fixedFlags) base.entries :=
    List.mem_filter.2 ⟨hentry, by simpa using hkept⟩
  exact not_passes ((isUnset_eq_false_iff _).2 ⟨hkey, Value.isNull_of_isUnsupported hvalue⟩)
    (encodeValue_of_isUnsupported _ hvalue)
    (passes_of_argumentsOf h entry (List.mem_append_left _ hmem))

theorem plainText?_of_setText {value : Value} (hset : value.isSet = true) {current : List Char}
    (h : setText (some value) = .ok current) :
    ∃ s, value.plainText? = some s ∧ s.toList = current := by
  simp only [setText, hset, if_true] at h
  cases htext : value.plainText? with
  | none => simp [htext] at h
  | some s =>
    rw [htext] at h
    cases h
    exact ⟨s, rfl, rfl⟩

/-- The list of block-level tags in the arguments begins with the text of the value that is set. -/
theorem tags_in_arguments {text : String} {settings : Settings} {base : OptionMap}
    {arguments : List String} (h : argumentsFor text settings base = .ok arguments)
    (hdynamic : settings.dynamicTags = true) {value : Value}
    (hvalue : base.find? blocklevelTags = some value) (hset : value.isSet = true) :
    ∃ s list before behind, value.plainText? = some s ∧ s.toList <+: list.toList ∧
      arguments = before ++ "--new-blocklevel-tags" :: list :: behind := by
  obtain ⟨derived, hderived⟩ := derive_of_argumentsFor h
  obtain ⟨tags, htags, hentries⟩ := entries_derive hderived
  obtain ⟨current, hcurrent, rfl⟩ := deriveTags_eq_ok hdynamic htags
  rw [hvalue] at hcurrent
  obtain ⟨s, hs, rfl⟩ := plainText?_of_setText hset hcurrent
  have hsome : CustomTags.extend text.toList s.toList ≠ [] := fun hnil =>
    Value.plainText?_ne_empty hset hs ((CustomTags.extend_eq_nil_iff _ _).1 hnil).1
  rw [if_neg (by simpa using hsome)] at hentries
  rw [argumentsFor_of_derive hderived, hentries] at h
  obtain ⟨before, last, -, hlast, rfl⟩ := argumentsOf_append h
  rw [List.append_assoc, List.append_assoc, List.singleton_append,
    argumentsOf_cons_ok _ rfl rfl] at hlast
  refine ⟨s, String.ofList (CustomTags.extend text.toList s.toList), before, ?_⟩
  cases hrest : argumentsOf (deriveBody text.toList settings ++
      (deriveErrors base settings ++ fixed.entries)) with
  | error fault =>
    rw [hrest] at hlast
    cases hlast
  | ok others =>
    rw [hrest] at hlast
    cases hlast
    have hflag : flagName blocklevelTags = "--new-blocklevel-tags" := by decide
    refine ⟨others, hs, ?_, by rw [← hflag]⟩
    rw [String.toList_ofList, CustomTags.extend_eq_listWith]
    exact CustomTags.prefix_listWith _ _

/-- What a formatter builds for a text are the arguments over the options of its document. -/
theorem arguments_buildOptions {host : Host} {f : Formatter} {path : Option Path}
    {resolved : Resolved} (text : String)
    (h : (f.resolver.optionsFor host path).value.1 = .ok resolved) :
    ((f.buildOptions host text path).value.1 >>= fun built => built.1.withFixed.arguments) =
      argumentsFor text f.settings resolved.options := by
  have hbuilt : (f.buildOptions host text path).value.1 =
      (derive text resolved.options f.settings).map fun derived =>
        (resolved.options.mergeOne derived, resolved.warnings) := by
    rw [Formatter.value_buildOptions, h]
  rw [hbuilt, argumentsFor, rederive]
  cases derive text resolved.options f.settings <;> rfl

theorem mem_of_find? {base : OptionMap} {key : String} {value : Value}
    (h : base.find? key = some value) : ∃ entry ∈ base.entries, entry.2 = value := by
  obtain ⟨entry, hentry, hvalue⟩ := Option.map_eq_some_iff.1 h
  exact ⟨entry, List.mem_of_find?_eq_some hentry, hvalue⟩

/-- Without a number beyond the digit limit all that can be refused are unsupported values. -/
theorem unsupported_of_short {text : String} {settings : Settings} {base : OptionMap}
    (hshort : ∀ entry ∈ base.entries, ¬ entry.2.HasLongNumber) {fault : Fault}
    (h : argumentsFor text settings base = .error fault) :
    ∃ key value, fault = .unsupported key value := by
  cases hderived : derive text base settings with
  | error other =>
    obtain ⟨-, -, tags, htags, -, hlong⟩ :=
      (derive_eq_error_iff text base settings other).1 hderived
    obtain ⟨entry, hentry, rfl⟩ := mem_of_find? htags
    exact absurd hlong (hshort entry hentry)
  | ok derived =>
    obtain ⟨before, entry, behind, hsplit, -, -, -, hfault⟩ :=
      (argumentsFor_eq_error_iff hderived fault).1 h
    rcases encodeValue_eq_error hfault with rfl | rfl
    · exact absurd ((encodeValue_eq_tooLong_iff _ _).1 hfault) (hshort entry (by simp [hsplit]))
    · exact ⟨entry.1, entry.2, rfl⟩

/-- A request is refused for an unsupported value exactly if its options hold one, under a name,
whose flag the run does not replace, behind nothing else that is refused. Where there are arguments,
each unsupported value has been replaced; but the text of the block-level tags that are set, of
whatever kind, is in the list that replaces them. -/
theorem unsupported_refused_unless_replaced (text : String) (settings : Settings)
    (base : OptionMap) :
    (∀ (host : Host) (f : Formatter) (path : Option Path) (resolved : Resolved),
      f.settings = settings → (f.resolver.optionsFor host path).value.1 = .ok resolved →
      resolved.options = base →
      ((f.buildOptions host text path).value.1 >>= fun built => built.1.withFixed.arguments) =
        argumentsFor text settings base) ∧
    (∀ key value, argumentsFor text settings base = .error (.unsupported key value) ↔
      (∀ tags, settings.dynamicTags = true → base.find? blocklevelTags = some tags →
        tags.isSet = true → ¬ tags.HasLongNumber) ∧
      ∃ before behind, base.entries = before ++ (key, value) :: behind ∧
        (∀ earlier ∈ before, Replaces text settings base (flagName earlier.1) ∨ Passes earlier) ∧
        ¬ Replaces text settings base (flagName key) ∧ key ≠ "" ∧
        value.isUnsupported = true ∧ ¬ value.HasLongNumber) ∧
    ((∀ entry ∈ base.entries, ¬ entry.2.HasLongNumber) →
      ((∃ key value, argumentsFor text settings base = .error (.unsupported key value)) ↔
        ∃ entry ∈ base.entries, entry.1 ≠ "" ∧ entry.2.isUnsupported = true ∧
          ¬ Replaces text settings base (flagName entry.1))) ∧
    ∀ arguments, argumentsFor text settings base = .ok arguments →
      (∀ entry ∈ base.entries, entry.1 ≠ "" → entry.2.isUnsupported = true →
        Replaces text settings base (flagName entry.1)) ∧
      ∀ value, settings.dynamicTags = true → base.find? blocklevelTags = some value →
        value.isSet = true → ∃ s list before behind, value.plainText? = some s ∧
          s.toList <+: list.toList ∧
          arguments = before ++ "--new-blocklevel-tags" :: list :: behind := by
  refine ⟨?_, argumentsFor_eq_unsupported_iff text settings base, fun hshort => ?_,
    fun arguments harguments => ⟨fun entry hentry hkey hvalue =>
      replaces_of_argumentsFor harguments hentry hkey hvalue, fun value hdynamic hvalue hset =>
      tags_in_arguments harguments hdynamic hvalue hset⟩⟩
  · rintro host f path resolved rfl hresolved rfl
    exact arguments_buildOptions text hresolved
  · constructor
    · rintro ⟨key, value, hfault⟩
      obtain ⟨-, before, behind, hsplit, -, hkept, hkey, hunsupported, -⟩ :=
        (argumentsFor_eq_unsupported_iff text settings base key value).1 hfault
      exact ⟨(key, value), by simp [hsplit], hkey, hunsupported, hkept⟩
    · rintro ⟨entry, hentry, hkey, hunsupported, hkept⟩
      cases hresult : argumentsFor text settings base with
      | ok arguments =>
        exact absurd (replaces_of_argumentsFor hresult hentry hkey hunsupported) hkept
      | error fault =>
        obtain ⟨key, value, rfl⟩ := unsupported_of_short hshort hresult
        exact ⟨key, value, rfl⟩

/-- A list among other options is refused. -/
theorem unsupported_refused_list :
    ∃ key value, argumentsFor "<p>" {}
      (.ofPairs [("indent", .text "auto"), ("bad", .list [.text "x"])]) =
        .error (.unsupported key value) := by
  obtain ⟨-, -, hrefused, -⟩ := unsupported_refused_unless_replaced "<p>" {}
    (.ofPairs [("indent", .text "auto"), ("bad", .list [.text "x"])])
  have hderived : derive "<p>"
      (.ofPairs [("indent", .text "auto"), ("bad", .list [.text "x"])]) {} = .ok .empty := rfl
  refine (hrefused fun entry hentry => ?_).2 ⟨("bad", .list [.text "x"]),
    List.mem_cons_of_mem _ List.mem_cons_self, by decide, rfl,
    mt (mem_flags_derive_iff hderived _).2 (by decide)⟩
  have hcases : entry = ("indent", .text "auto") ∨ entry = ("bad", .list [.text "x"]) := by
    simpa [ofPairs, Pairs.collect, Pairs.set] using hentry
  rw [← Value.display?_eq_none_iff]
  rcases hcases with rfl | rfl <;> simp [Value.display?, Value.displayItems?]

/-- The options of a document that list their block-level tags. -/
def listedTags : OptionMap := .ofPairs [("newBlocklevelTags", .list [.text "x"])]

/-- A list of tags has no fixed flag nor one of the options that a run puts in place of others, and
is not refused: it becomes an argument as it is shown. -/
theorem listedTags_become_text :
    ("newBlocklevelTags", .list [.text "x"]) ∈ listedTags.entries ∧
      (Value.list [.text "x"]).isUnsupported = true ∧
      flagName "newBlocklevelTags" ∉ fixedFlags ∧
      flagName "newBlocklevelTags" ≠ flagName showBodyOnly ∧
      flagName "newBlocklevelTags" ≠ flagName showErrors ∧
      argumentsFor "<p>" {} listedTags = .ok ["--new-blocklevel-tags", "['x']", "--tidy-mark", "no",
        "--force-output", "yes", "--quiet", "no"] := by
  refine ⟨List.mem_singleton_self _, rfl, by decide, by decide, by decide, rfl⟩

end DerivedOptions

end MarkupTidy
