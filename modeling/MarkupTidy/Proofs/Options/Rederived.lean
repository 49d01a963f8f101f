import MarkupTidy.Proofs.Options.ArgumentVector
import MarkupTidy.Proofs.Options.TagList

/-!
Deriving options again from the same document. What derives is merged over the options that are
there, and the next run derives from the result. A run whose options are themselves such a result
changes nothing but the list of block-level tags, and this only by names with a comma in them, which
it puts there once more.
-/
namespace MarkupTidy

namespace OptionMap

/-- The entry is the only one for its flag. -/
def IsSole (options : OptionMap) (key : String) (value : Value) : Prop :=
  options.entries.filter (hasFlag (flagName key)) = [(key, value)]

theorem IsSole.find?_eq {options : OptionMap} {key : String} {value : Value}
    (h : options.IsSole key value) : options.find? key = some value := by
  rw [find?_eq_head?, h]
  rfl

theorem IsSole.eq_of_mem {options : OptionMap} {key : String} {value : Value}
    (h : options.IsSole key value) {entry : String × Value} (hentry : entry ∈ options.entries)
    (hflag : flagName entry.1 = flagName key) : entry = (key, value) := by
  have hmem : entry ∈ options.entries.filter (hasFlag (flagName key)) :=
    List.mem_filter.2 ⟨hentry, by simp [hasFlag, hflag]⟩
  rw [h] at hmem
  exact List.mem_singleton.1 hmem

theorem IsSole.mem {options : OptionMap} {key : String} {value : Value}
    (h : options.IsSole key value) : (key, value) ∈ options.entries := by
  have hmem : (key, value) ∈ options.entries.filter (hasFlag (flagName key)) := by
    rw [h]
    exact List.mem_singleton_self _
  exact (List.mem_filter.1 hmem).1

/-- Merging leaves the later options of a flag, or the earlier ones where there are none. -/
theorem filter_hasFlag_mergeOne (base : OptionMap) {later : OptionMap}
    (h : (flags later.entries).Nodup) (flag : String) :
    (base.mergeOne later).entries.filter (hasFlag flag) =
      if flag ∈ flags later.entries then later.entries.filter (hasFlag flag)
      else base.entries.filter (hasFlag flag) := by
  rw [entries_mergeOne_of_nodup base later h, List.filter_append, filter_hasFlag_withoutFlags]
  split
  · rfl
  · next hnot => rw [(filter_hasFlag_eq_nil_iff _ _).2 hnot, List.append_nil]

theorem filter_hasFlag_of_mem {entries : List (String × Value)} (h : (flags entries).Nodup)
    {entry : String × Value} (hentry : entry ∈ entries) :
    entries.filter (hasFlag (flagName entry.1)) = [entry] := by
  induction entries with
  | nil => cases hentry
  | cons first rest ih =>
    obtain ⟨hfresh, hrest⟩ : flagName first.1 ∉ flags rest ∧ (flags rest).Nodup :=
      List.nodup_cons.1 h
    rcases List.mem_cons.1 hentry with rfl | hmem
    · have hnone : rest.filter (hasFlag (flagName entry.1)) = [] := by
        refine List.filter_eq_nil_iff.2 fun other hother hflag => hfresh ?_
        rw [← beq_iff_eq.1 hflag]
        exact List.mem_map_of_mem hother
      simp [hasFlag, hnone]
    · have hne : flagName first.1 ≠ flagName entry.1 := by
        intro heq
        rw [heq] at hfresh
        exact hfresh (List.mem_map_of_mem hmem)
      rw [List.filter_cons_of_neg (by simp [hasFlag, hne]), ih hrest hmem]

theorem isSole_mergeOne (base : OptionMap) {later : OptionMap} (h : (flags later.entries).Nodup)
    {key : String} {value : Value} (hmem : (key, value) ∈ later.entries) :
    (base.mergeOne later).IsSole key value := by
  have hflag : flagName key ∈ flags later.entries := List.mem_map.2 ⟨_, hmem, rfl⟩
  have hsole := filter_hasFlag_of_mem h hmem
  rw [IsSole, filter_hasFlag_mergeOne base h, if_pos hflag]
  exact hsole

theorem find?_mergeOne_of_notMem (base : OptionMap) {later : OptionMap}
    (h : (flags later.entries).Nodup) {key : String} (hkey : flagName key ∉ flags later.entries) :
    (base.mergeOne later).find? key = base.find? key := by
  rw [find?_eq_head?, find?_eq_head?, filter_hasFlag_mergeOne base h, if_neg hkey]

/-- Putting an entry in place of the only one for its flag changes the value of this one. -/
theorem IsSole.perm_put {options : OptionMap} {key : String} {old : Value}
    (h : options.IsSole key old) (value : Value) :
    (options.put key value).entries.Perm
      (options.entries.map fun entry => if entry.1 = key then (key, value) else entry) := by
  have hothers : (withoutFlag (flagName key) options.entries).map
      (fun entry => if entry.1 = key then (key, value) else entry) =
        withoutFlag (flagName key) options.entries := by
    refine (List.map_congr_left fun entry hentry => ?_).trans (List.map_id _)
    have hflag := (List.mem_filter.1 hentry).2
    have hne : entry.1 ≠ key := fun heq => by simp [hasFlag, heq] at hflag
    simp [hne]
  have hsplit := (List.filter_append_perm (hasFlag (flagName key)) options.entries).map
    fun entry => if entry.1 = key then (key, value) else entry
  rw [h, List.map_append, ← withoutFlag, hothers] at hsplit
  rw [entries_put]
  exact List.perm_append_comm.trans (by simpa using hsplit)

theorem IsSole.put_other {options : OptionMap} {key other : String} {value : Value}
    (h : options.IsSole key value) (hflags : flagName key ≠ flagName other) (more : Value) :
    (options.put other more).IsSole key value := by
  have hkept : (withoutFlag (flagName other) options.entries).filter (hasFlag (flagName key)) =
      options.entries.filter (hasFlag (flagName key)) := by
    rw [withoutFlag, List.filter_filter]
    refine List.filter_congr fun entry _ => ?_
    by_cases hflag : flagName entry.1 = flagName key
    · simp [hasFlag, hflag, hflags]
    · simp [hasFlag, hflag]
  rw [IsSole, entries_put, List.filter_append, hkept, h]
  simp [hasFlag, Ne.symm hflags]

/-- Putting the only entry of a flag once more moves it to the end. -/
theorem IsSole.perm_put_again {options : OptionMap} {key : String} {value : Value}
    (h : options.IsSole key value) : (options.put key value).entries.Perm options.entries := by
  have hsame : options.entries.map (fun entry => if entry.1 = key then (key, value) else entry) =
      options.entries := by
    refine (List.map_congr_left fun entry hentry => ?_).trans (List.map_id _)
    split
    · next heq => exact (h.eq_of_mem hentry (heq ▸ rfl)).symm
    · rfl
  exact hsame ▸ h.perm_put value

end OptionMap

namespace DerivedOptions

open OptionMap

/-- One run: the options that derive from a text, merged over those that are there. -/
def rederive (text : String) (settings : Settings) (options : OptionMap) :
    Except Fault OptionMap :=
  (derive text options settings).map options.mergeOne

/-- Some runs one after the other. -/
def rederiveTimes (text : String) (settings : Settings) : Nat → OptionMap → Except Fault OptionMap
  | 0, options => .ok options
  | runs + 1, options => rederive text settings options >>= rederiveTimes text settings runs

/-- The names that every further run puts into the list of block-level tags. -/
def repeatedNames (text : String) (settings : Settings) : List (List Char) :=
  if settings.dynamicTags then CustomTags.splitNames text.toList else []

/-- The names that some further runs put into it. -/
def namesOfRuns (text : String) (settings : Settings) (runs : Nat) : List (List Char) :=
  (List.replicate runs (repeatedNames text settings)).flatten

/-- The list of block-level tags with further names; other entries stay as they are. -/
def withNames (names : List (List Char)) : String × Value → String × Value
  | (key, .text s) =>
    if key = blocklevelTags then
      (key, .text (String.ofList (CustomTags.listWith s.toList names)))
    else (key, .text s)
  | entry => entry

/-- The options are such as a run leaves them: what derives from the text is in them. -/
structure Holds (text : String) (settings : Settings) (options : OptionMap) : Prop where
  tags : settings.dynamicTags = true →
    (setText (options.find? blocklevelTags) = .ok [] ∧ CustomTags.find text.toList = []) ∨
    ∃ existing, CustomTags.extend text.toList existing ≠ [] ∧ options.IsSole blocklevelTags
      (.text (String.ofList (CustomTags.extend text.toList existing)))
  body : settings.dynamicBody = true →
    options.IsSole showBodyOnly (.bool !Text.occurs "<body".toList text.toList)
  errors : settings.showErrors = true → (options.find? showErrors).any Value.isSet = true

theorem rederive_eq_ok {text : String} {settings : Settings} {base options : OptionMap}
    (h : rederive text settings base = .ok options) :
    ∃ derived, derive text base settings = .ok derived ∧ options = base.mergeOne derived := by
  unfold rederive at h
  cases hderive : derive text base settings with
  | error fault =>
    rw [hderive] at h
    cases h
  | ok derived =>
    rw [hderive] at h
    cases h
    exact ⟨derived, rfl, rfl⟩

theorem deriveTags_eq_ok {text : List Char} {base : OptionMap} {settings : Settings}
    {tags : List (String × Value)} (hdynamic : settings.dynamicTags = true)
    (h : deriveTags text base settings = .ok tags) :
    ∃ current, setText (base.find? blocklevelTags) = .ok current ∧
      tags = if (CustomTags.extend text current).isEmpty then []
        else [(blocklevelTags, .text (String.ofList (CustomTags.extend text current)))] := by
  simp only [deriveTags, hdynamic, if_true] at h
  cases hset : setText (base.find? blocklevelTags) with
  | error fault =>
    rw [hset] at h
    cases h
  | ok current =>
    rw [hset] at h
    exact ⟨current, rfl, (Except.ok.inj h).symm⟩

theorem flagName_tags_ne_body : flagName blocklevelTags ≠ flagName showBodyOnly := by decide

theorem flagName_tags_ne_errors : flagName blocklevelTags ≠ flagName showErrors := by decide

theorem flagName_body_ne_errors : flagName showBodyOnly ≠ flagName showErrors := by decide

/-- A run leaves options in which all that derives from the text is. -/
theorem Holds.of_rederive {text : String} {settings : Settings} {base options : OptionMap}
    (h : rederive text settings base = .ok options) : Holds text settings options := by
  obtain ⟨derived, hderive, rfl⟩ := rederive_eq_ok h
  obtain ⟨tags, htags, hentries⟩ := entries_derive hderive
  have hnodup := nodup_derive hderive
  have hbody : ∀ entry ∈ deriveBody text.toList settings, entry.1 = showBodyOnly := by
    unfold deriveBody
    split <;> simp
  have herrors : ∀ entry ∈ deriveErrors base settings, entry.1 = showErrors := by
    unfold deriveErrors
    split <;> simp
  refine ⟨fun hdynamic => ?_, fun hdynamic => ?_, fun hshow => ?_⟩
  · obtain ⟨current, hcurrent, rfl⟩ := deriveTags_eq_ok hdynamic htags
    split at hentries
    · next hempty =>
      obtain ⟨rfl, hnone⟩ := (CustomTags.extend_eq_nil_iff _ _).1 (List.isEmpty_iff.1 hempty)
      refine Or.inl ⟨?_, hnone⟩
      rw [find?_mergeOne_of_notMem base hnodup, hcurrent]
      intro hmem
      obtain ⟨entry, hentry, hflag⟩ := List.mem_map.1 hmem
      rw [hentries, List.nil_append] at hentry
      rcases List.mem_append.1 hentry with hentry | hentry
      · rw [hbody entry hentry] at hflag
        exact flagName_tags_ne_body hflag.symm
      · rw [herrors entry hentry] at hflag
        exact flagName_tags_ne_errors hflag.symm
    · next hsome =>
      refine Or.inr ⟨current, by simpa using hsome, isSole_mergeOne base hnodup ?_⟩
      simp [hentries]
  · refine isSole_mergeOne base hnodup ?_
    simp [hentries, deriveBody, hdynamic]
  · cases hset : (base.find? showErrors).any Value.isSet with
    | false =>
      have hmem : (showErrors, .int standardErrors) ∈ derived.entries := by
        simp [hentries, deriveErrors, hshow, hset]
      rw [(isSole_mergeOne base hnodup hmem).find?_eq]
      rfl
    | true =>
      rw [find?_mergeOne_of_notMem base hnodup, hset]
      intro hmem
      obtain ⟨entry, hentry, hflag⟩ := List.mem_map.1 hmem
      have hnone : deriveErrors base settings = [] := by simp [deriveErrors, hset]
      rw [hentries, hnone, List.append_nil] at hentry
      rcases List.mem_append.1 hentry with hentry | hentry
      · rcases deriveTags_cases htags with rfl | ⟨s, rfl⟩
        · cases hentry
        · obtain rfl := List.mem_singleton.1 hentry
          exact flagName_tags_ne_errors hflag
      · rw [hbody entry hentry] at hflag
        exact flagName_body_ne_errors hflag

theorem ne_nil_of_mem_repeatedNames {text : String} {settings : Settings} :
    ∀ name ∈ repeatedNames text settings, name ≠ [] := by
  intro name h
  unfold repeatedNames at h
  split at h
  · exact CustomTags.ne_nil_of_mem_find (List.mem_filter.1 h).1
  · cases h

theorem ne_nil_of_mem_namesOfRuns {text : String} {settings : Settings} {runs : Nat} :
    ∀ name ∈ namesOfRuns text settings runs, name ≠ [] := by
  intro name h
  obtain ⟨names, hrun, hname⟩ := List.mem_flatten.1 h
  exact ne_nil_of_mem_repeatedNames name (List.eq_of_mem_replicate hrun ▸ hname)

theorem namesOfRuns_eq_nil_iff (text : String) (settings : Settings) (runs : Nat) :
    namesOfRuns text settings runs = [] ↔ runs = 0 ∨ repeatedNames text settings = [] := by
  cases runs with
  | zero => simp [namesOfRuns]
  | succ runs => simp +contextual [namesOfRuns, List.replicate_succ]

theorem map_withNames_nil (entries : List (String × Value)) :
    entries.map (withNames []) = entries := by
  refine (List.map_congr_left fun entry _ => ?_).trans (List.map_id _)
  obtain ⟨key, value⟩ := entry
  cases value <;> simp [withNames, CustomTags.listWith_nil]

theorem map_withNames_map {names more : List (List Char)} (hnames : ∀ name ∈ names, name ≠ [])
    (hmore : ∀ name ∈ more, name ≠ []) (entries : List (String × Value)) :
    (entries.map (withNames names)).map (withNames more) =
      entries.map (withNames (names ++ more)) := by
  rw [List.map_map]
  refine List.map_congr_left fun entry _ => ?_
  obtain ⟨key, value⟩ := entry
  cases value <;> try rfl
  by_cases hkey : key = blocklevelTags
  · simp [withNames, hkey, CustomTags.listWith_listWith _ hnames hmore]
  · simp [withNames, hkey]

theorem setText_some_text {s : List Char} (hne : s ≠ []) :
    setText (some (.text (String.ofList s))) = .ok s := by
  simp [setText, Value.isSet, Value.plainText?, hne]

/-- Where a run has been, the next one gives the list of block-level tags its repeated names, or
there is no such list and no name to put into it. -/
theorem Holds.deriveTags_cases {text : String} {settings : Settings} {options : OptionMap}
    (h : Holds text settings options) :
    (deriveTags text.toList options settings = .ok [] ∧ repeatedNames text settings = []) ∨
    ∃ existing, existing ≠ [] ∧
      options.IsSole blocklevelTags (.text (String.ofList existing)) ∧
      deriveTags text.toList options settings = .ok [(blocklevelTags, .text (String.ofList
        (CustomTags.listWith existing (repeatedNames text settings))))] := by
  cases hdynamic : settings.dynamicTags with
  | false => exact Or.inl ⟨by simp [deriveTags, hdynamic], by simp [repeatedNames, hdynamic]⟩
  | true =>
    rcases h.tags hdynamic with ⟨hset, hnone⟩ | ⟨existing, hne, hsole⟩
    · refine Or.inl ⟨?_, by simp [repeatedNames, hdynamic, CustomTags.splitNames, hnone]⟩
      have hnil := (CustomTags.extend_eq_nil_iff text.toList []).2 ⟨rfl, hnone⟩
      simp [deriveTags, hdynamic, hset, hnil, bind, Except.bind]
    · refine Or.inr ⟨_, hne, hsole, ?_⟩
      have hagain : CustomTags.extend text.toList (CustomTags.extend text.toList existing) ≠ [] :=
        fun hnil => hne ((CustomTags.extend_eq_nil_iff _ _).1 hnil).1
      rw [repeatedNames, if_pos hdynamic, ← CustomTags.extend_extend]
      simp [deriveTags, hdynamic, hsole.find?_eq, setText_some_text hne, hagain, bind, Except.bind]

/-- A list of block-level tags that takes another's place is the only change. -/
theorem perm_put_withNames {options : OptionMap} {existing : List Char}
    (h : options.IsSole blocklevelTags (.text (String.ofList existing)))
    (names : List (List Char)) :
    (options.put blocklevelTags
      (.text (String.ofList (CustomTags.listWith existing names)))).entries.Perm
        (options.entries.map (withNames names)) := by
  have hmap : options.entries.map (fun entry => if entry.1 = blocklevelTags then (blocklevelTags,
      .text (String.ofList (CustomTags.listWith existing names))) else entry) =
        options.entries.map (withNames names) := by
    refine List.map_congr_left fun entry hentry => ?_
    by_cases hkey : entry.1 = blocklevelTags
    · rw [h.eq_of_mem hentry (hkey ▸ rfl)]
      simp [withNames]
    · obtain ⟨key, value⟩ := entry
      have hother : key ≠ blocklevelTags := hkey
      cases value <;> simp [withNames, hother]
  exact hmap ▸ h.perm_put _

/-- What the tags of another run put over the options, and that the other options stay. -/
theorem Holds.put_tags {text : String} {settings : Settings} {options : OptionMap}
    (h : Holds text settings options) :
    ∃ tags, deriveTags text.toList options settings = .ok tags ∧
      (tags.foldl (fun map entry => map.put entry.1 entry.2) options).entries.Perm
        (options.entries.map (withNames (repeatedNames text settings))) ∧
      ∀ value, options.IsSole showBodyOnly value →
        (tags.foldl (fun map entry => map.put entry.1 entry.2) options).IsSole
          showBodyOnly value := by
  rcases h.deriveTags_cases with ⟨htags, hnone⟩ | ⟨existing, -, hsole, htags⟩
  · refine ⟨_, htags, ?_, fun _ hbody => hbody⟩
    rw [hnone, map_withNames_nil]
    rfl
  · exact ⟨_, htags, perm_put_withNames hsole _,
      fun _ hbody => hbody.put_other flagName_tags_ne_body.symm _⟩

/-- One more run changes nothing but the list of block-level tags. -/
theorem Holds.rederive {text : String} {settings : Settings} {options : OptionMap}
    (h : Holds text settings options) :
    ∃ next, DerivedOptions.rederive text settings options = .ok next ∧
      Holds text settings next ∧
      next.entries.Perm (options.entries.map (withNames (repeatedNames text settings))) := by
  obtain ⟨tags, htags, hperm, hkeeps⟩ := h.put_tags
  have herrors : deriveErrors options settings = [] := by
    cases hshow : settings.showErrors with
    | false => simp [deriveErrors, hshow]
    | true => simp [deriveErrors, h.errors hshow]
  have hderive : derive text options settings = .ok (.ofPairs
      (tags ++ deriveBody text.toList settings ++ deriveErrors options settings)) := by
    rw [derive, htags]
    rfl
  obtain ⟨same, hsame, hentries⟩ := entries_derive hderive
  obtain rfl : tags = same := by
    rw [htags] at hsame
    exact Except.ok.inj hsame
  have hnext := congrArg (Except.map options.mergeOne) hderive
  refine ⟨_, hnext, Holds.of_rederive hnext, ?_⟩
  rw [mergeOne, hentries, herrors, List.append_nil, List.foldl_append]
  cases hdynamic : settings.dynamicBody with
  | false => simpa [deriveBody, hdynamic] using hperm
  | true =>
    have hbody := hkeeps _ (h.body hdynamic)
    simpa [deriveBody, hdynamic] using hbody.perm_put_again.trans hperm

/-- Further runs put the repeated names into the list once each, and change nothing else. -/
theorem Holds.rederiveTimes {text : String} {settings : Settings} {options : OptionMap}
    (h : Holds text settings options) (runs : Nat) :
    ∃ last, DerivedOptions.rederiveTimes text settings runs options = .ok last ∧
      last.entries.Perm (options.entries.map (withNames (namesOfRuns text settings runs))) := by
  induction runs generalizing options with
  | zero =>
    refine ⟨options, rfl, ?_⟩
    rw [namesOfRuns, List.replicate_zero, List.flatten_nil, map_withNames_nil]
  | succ runs ih =>
    obtain ⟨next, hnext, hholds, hstep⟩ := h.rederive
    obtain ⟨last, hlast, hrest⟩ := ih hholds
    refine ⟨last, by rw [DerivedOptions.rederiveTimes, hnext]; exact hlast, ?_⟩
    have hmap := hstep.map (withNames (namesOfRuns text settings runs))
    rw [map_withNames_map ne_nil_of_mem_repeatedNames ne_nil_of_mem_namesOfRuns] at hmap
    exact hrest.trans hmap

/-- Options in which all that derives is stay the same only if nothing is put into the list. -/
theorem Holds.perm_withNames_iff {text : String} {settings : Settings} {options : OptionMap}
    (h : Holds text settings options) (runs : Nat) :
    (options.entries.map (withNames (namesOfRuns text settings runs))).Perm options.entries ↔
      namesOfRuns text settings runs = [] := by
  constructor
  · intro hperm
    rcases h.deriveTags_cases with ⟨-, hnone⟩ | ⟨existing, hne, hsole, -⟩
    · exact (namesOfRuns_eq_nil_iff ..).2 (Or.inr hnone)
    have hmem := hperm.subset (List.mem_map_of_mem hsole.mem)
    have hgrown := hsole.eq_of_mem hmem (by simp [withNames])
    simp only [withNames, if_true, Prod.mk.injEq, Value.text.injEq, true_and, String.toList_ofList,
      String.ofList_inj] at hgrown
    by_contra hnames
    rw [CustomTags.listWith_cons hne
      (mt (CustomTags.intercalate_eq_nil_iff ne_nil_of_mem_namesOfRuns).1 hnames)] at hgrown
    simp at hgrown
  · intro hnone
    rw [hnone, map_withNames_nil]

theorem repeatedNames_eq_nil_iff (text : String) (settings : Settings) :
    repeatedNames text settings = [] ↔
      settings.dynamicTags = false ∨ ∀ name ∈ CustomTags.find text.toList, ',' ∉ name := by
  cases hdynamic : settings.dynamicTags <;>
    simp [repeatedNames, hdynamic, CustomTags.splitNames, List.filter_eq_nil_iff]

/-- After a first run every further one succeeds and puts the names with a comma into the list of
block-level tags once more, and this is all it changes. So the options that the first run left stay,
their order aside, exactly if no custom element of the text has a comma in its name. -/
theorem rederived_stays_iff (text : String) (settings : Settings) {base first : OptionMap}
    (hfirst : rederive text settings base = .ok first) (runs : Nat) :
    ∃ last, rederiveTimes text settings runs first = .ok last ∧
      last.entries.Perm (first.entries.map (withNames (namesOfRuns text settings runs))) ∧
      (last.entries.Perm first.entries ↔
        runs = 0 ∨ settings.dynamicTags = false ∨
          ∀ name ∈ CustomTags.find text.toList, ',' ∉ name) := by
  have hholds := Holds.of_rederive hfirst
  obtain ⟨last, hlast, hperm⟩ := hholds.rederiveTimes runs
  refine ⟨last, hlast, hperm, ?_⟩
  rw [← repeatedNames_eq_nil_iff, ← namesOfRuns_eq_nil_iff, ← hholds.perm_withNames_iff runs]
  exact ⟨hperm.symm.trans, hperm.trans⟩

/-- A run over a text with a custom element, and three more. -/
theorem rederived_stays_plain :
    ∃ first last, rederive "<x-y>" {} .empty = .ok first ∧
      rederiveTimes "<x-y>" {} 3 first = .ok last ∧ last.entries.Perm first.entries := by
  have hfirst : rederive "<x-y>" {} .empty = .ok (.ofPairs [(blocklevelTags, .text "x-y")]) := rfl
  obtain ⟨last, hlast, -, hiff⟩ := rederived_stays_iff "<x-y>" {} hfirst 3
  refine ⟨_, last, hfirst, hlast, hiff.2 (Or.inr (Or.inr ?_))⟩
  decide

/-- A name with a comma is in the list twice after the second run. -/
theorem comma_name_repeats :
    ∃ first second, rederive "<my-tag,x>" {} .empty = .ok first ∧
      rederive "<my-tag,x>" {} first = .ok second ∧
      first.entries = [(blocklevelTags, .text "my-tag,x")] ∧
      second.entries = [(blocklevelTags, .text "my-tag,x my-tag,x")] ∧
      ¬ second.entries.Perm first.entries := by
  refine ⟨.ofPairs [(blocklevelTags, .text "my-tag,x")],
    .ofPairs [(blocklevelTags, .text "my-tag,x my-tag,x")], rfl, rfl, rfl, rfl, fun hperm => ?_⟩
  have hmem := hperm.subset List.mem_cons_self
  revert hmem
  simp [OptionMap.ofPairs, Pairs.collect, Pairs.set]

end DerivedOptions

end MarkupTidy
