import MarkupTidy.Proofs.Settings.Loaded
import Mathlib.Data.List.Perm.Basic

/-!
Settings of a host application. What is read depends on nothing but the value that is given for each
setting, and the name for host applications decides where both names are used. So neither the order
of the pairs counts, nor a pair under an unknown name, nor one under a name that is passed over; and
settings that were read are read again from their dump, under either kind of names.
-/
namespace MarkupTidy

namespace Pairs

variable {κ α : Type} [BEq κ] [LawfulBEq κ]

theorem lookup_of_mem {key : κ} {value : α} {pairs : List (κ × α)}
    (hkeys : (pairs.map Prod.fst).Nodup) (h : (key, value) ∈ pairs) :
    pairs.lookup key = some value := by
  cases hlookup : pairs.lookup key with
  | none => exact absurd (List.mem_map_of_mem h) (lookup_eq_none.1 hlookup)
  | some other =>
    have hsame := List.inj_on_of_nodup_map hkeys (mem_of_lookup hlookup) h rfl
    rw [(Prod.mk.inj hsame).2]

/-- The order of pairs without repeated keys plays no part in looking a key up. -/
theorem lookup_of_perm {pairs others : List (κ × α)} (h : others.Perm pairs)
    (hkeys : (pairs.map Prod.fst).Nodup) (key : κ) : others.lookup key = pairs.lookup key := by
  have hothers : (others.map Prod.fst).Nodup := (h.map Prod.fst).nodup_iff.2 hkeys
  cases hlookup : pairs.lookup key with
  | none =>
    have hnot := lookup_eq_none.1 hlookup
    exact lookup_eq_none.2 fun hmem => hnot ((h.map Prod.fst).mem_iff.1 hmem)
  | some value => exact lookup_of_mem hothers (h.mem_iff.2 (mem_of_lookup hlookup))

end Pairs

namespace Settings

/-- All settings, in the order in which they are read. -/
def allNames : List SettingName :=
  [.executable, .dynamicTags, .dynamicBody, .showErrors, .options, .stopOnWarning, .secureTagCount,
    .fileSearch, .overrideName, .timeout]

/-- A key is the name of a setting, in files or in host applications. -/
def isKnown (key : String) : Bool :=
  allNames.any fun setting => key == setting.hostName || key == setting.name

theorem isKnown_of_mem {setting : SettingName} (h : setting ∈ allNames) :
    isKnown setting.hostName = true ∧ isKnown setting.name = true := by
  unfold isKnown
  constructor
  · exact List.any_eq_true.2 ⟨setting, h, by simp⟩
  · exact List.any_eq_true.2 ⟨setting, h, by simp⟩

/-- All settings with their values. -/
def valued (s : Settings) : List (SettingName × Value) :=
  [(.executable, s.executable.elim .null .text), (.dynamicTags, .bool s.dynamicTags),
    (.dynamicBody, .bool s.dynamicBody), (.showErrors, .bool s.showErrors),
    (.options, .table s.options.entries), (.stopOnWarning, .bool s.stopOnWarning),
    (.secureTagCount, .bool s.secureTagCount), (.fileSearch, .bool s.fileSearch),
    (.overrideName, .text s.overrideName),
    (.timeout, s.timeout.elim .null fun limit => .float limit.val)]

/-- All settings under one kind of names; under those in files this is the dump. -/
def dumpUnder (key : SettingName → String) (s : Settings) : List (String × Value) :=
  s.valued.map fun named => (key named.1, named.2)

/-- What is read depends on the values that are given for the settings. -/
theorem ofGiven_congr {values others : Given}
    (h : ∀ setting ∈ allNames, given? others setting = given? values setting) :
    ofGiven others = ofGiven values := by
  simp only [allNames, List.forall_mem_cons] at h
  simp only [ofGiven, readSetting, h]

theorem given?_congr {values others : Given} {setting : SettingName}
    (hhost : others.lookup setting.hostName = values.lookup setting.hostName)
    (hname : others.lookup setting.name = values.lookup setting.name) :
    given? others setting = given? values setting := by
  rw [given?, hhost, hname, given?]

/-- A value under the name for host applications is taken, whatever the other name has. -/
theorem given?_of_host {values : Given} {setting : SettingName}
    (h : setting.hostName ∈ values.map Prod.fst) :
    given? values setting =
      (values.lookup setting.hostName).map fun value => (setting.hostName, value) := by
  unfold given?
  cases hlookup : values.lookup setting.hostName with
  | none => exact absurd h (Pairs.lookup_eq_none.1 hlookup)
  | some value => rfl

/-- A setting reads as the value that is given for it. -/
theorem readSetting_of_given {α : Type} {values : Given} {setting : SettingName} {key : String}
    {value : Value} {check : Value → Except Mismatch α} {result : α}
    (hgiven : given? values setting = some (key, value)) (hcheck : check value = .ok result)
    (standard : α) : readSetting values setting check standard = .ok result := by
  simp only [readSetting, hgiven, hcheck]
  rfl

theorem readOptions_entries (options : OptionMap) :
    readOptions (.table options.entries) = .ok options := by
  show Except.ok (OptionMap.ofPairs options.entries) = _
  simp only [OptionMap.ofPairs, Pairs.collect_of_nodup options.distinct]

/-- Where each setting is given with its value, the settings are read as they are. -/
theorem ofGiven_valued {values : Given} {s : Settings}
    (h : ∀ named ∈ s.valued, ∃ key, given? values named.1 = some (key, named.2)) :
    ofGiven values = .ok s := by
  simp only [valued, List.forall_mem_cons] at h
  obtain ⟨⟨_, hexecutable⟩, ⟨_, hdynamicTags⟩, ⟨_, hdynamicBody⟩, ⟨_, hshowErrors⟩, ⟨_, hoptions⟩,
    ⟨_, hstopOnWarning⟩, ⟨_, hsecureTagCount⟩, ⟨_, hfileSearch⟩, ⟨_, hoverrideName⟩,
    ⟨_, htimeout⟩, -⟩ := h
  have hpath : readOptionalText (s.executable.elim .null .text) = .ok s.executable := by
    cases s.executable <;> rfl
  have hlimit : readTimeout (s.timeout.elim .null fun limit => .float limit.val) =
      .ok s.timeout := by
    cases s.timeout with
    | none => rfl
    | some limit => exact readTimeout_limit limit
  have hbool : ∀ b : Bool, readBool (.bool b) = .ok b := fun _ => rfl
  have htext : readText (.text s.overrideName) = .ok s.overrideName := rfl
  simp only [ofGiven, readSetting_of_given hexecutable hpath,
    readSetting_of_given hdynamicTags (hbool _), readSetting_of_given hdynamicBody (hbool _),
    readSetting_of_given hshowErrors (hbool _),
    readSetting_of_given hoptions (readOptions_entries s.options),
    readSetting_of_given hstopOnWarning (hbool _), readSetting_of_given hsecureTagCount (hbool _),
    readSetting_of_given hfileSearch (hbool _), readSetting_of_given hoverrideName htext,
    readSetting_of_given htimeout hlimit]

/-- A dump under either kind of names gives each setting its value. -/
theorem given?_dumpUnder {key : SettingName → String}
    (hkey : key = SettingName.name ∨ key = SettingName.hostName) (s : Settings) :
    ∀ named ∈ s.valued, ∃ used, given? (s.dumpUnder key) named.1 = some (used, named.2) := by
  simp only [valued, List.forall_mem_cons, List.not_mem_nil, false_implies, implies_true, and_true]
  rcases hkey with rfl | rfl
  · exact ⟨⟨_, rfl⟩, ⟨_, rfl⟩, ⟨_, rfl⟩, ⟨_, rfl⟩, ⟨_, rfl⟩, ⟨_, rfl⟩, ⟨_, rfl⟩, ⟨_, rfl⟩, ⟨_, rfl⟩,
      ⟨_, rfl⟩⟩
  · exact ⟨⟨_, rfl⟩, ⟨_, rfl⟩, ⟨_, rfl⟩, ⟨_, rfl⟩, ⟨_, rfl⟩, ⟨_, rfl⟩, ⟨_, rfl⟩, ⟨_, rfl⟩, ⟨_, rfl⟩,
      ⟨_, rfl⟩⟩

theorem nodup_dumpUnder {key : SettingName → String}
    (hkey : key = SettingName.name ∨ key = SettingName.hostName) (s : Settings) :
    ((s.dumpUnder key).map Prod.fst).Nodup := by
  have hkeys : (s.dumpUnder key).map Prod.fst = allNames.map key := rfl
  rw [hkeys]
  rcases hkey with rfl | rfl <;> decide

/-- Pairs without repeated keys are read as they are. -/
theorem ofHost_of_nodup {pairs : List (String × Value)} (h : (pairs.map Prod.fst).Nodup) :
    ofHost pairs = (ofGiven pairs).mapError fun settings =>
      .settings "host settings" (.mismatched settings) := by
  rw [ofHost, Pairs.collect_of_nodup h]

theorem ofHost_dumpUnder {key : SettingName → String}
    (hkey : key = SettingName.name ∨ key = SettingName.hostName) (s : Settings) :
    ofHost (s.dumpUnder key) = .ok s := by
  rw [ofHost_of_nodup (nodup_dumpUnder hkey s), ofGiven_valued (given?_dumpUnder hkey s)]
  rfl

section Pairs

variable {pairs others : List (String × Value)}

theorem ofHost_congr (hpairs : (pairs.map Prod.fst).Nodup) (hothers : (others.map Prod.fst).Nodup)
    (h : ∀ setting ∈ allNames, given? others setting = given? pairs setting) :
    ofHost others = ofHost pairs := by
  rw [ofHost_of_nodup hothers, ofHost_of_nodup hpairs, ofGiven_congr h]

/-- Settings are read from the pairs with known keys, in any order. -/
theorem ofHost_of_known (hpairs : (pairs.map Prod.fst).Nodup)
    (hothers : (others.map Prod.fst).Nodup)
    (h : (others.filter fun pair => isKnown pair.1).Perm
      (pairs.filter fun pair => isKnown pair.1)) :
    ofHost others = ofHost pairs := by
  have hkept : ((pairs.filter fun pair => isKnown pair.1).map Prod.fst).Nodup :=
    (List.filter_sublist.map Prod.fst).nodup hpairs
  have hlookup : ∀ key, isKnown key = true → others.lookup key = pairs.lookup key := by
    intro key hkey
    have hsame := Pairs.lookup_of_perm h hkept key
    rw [Pairs.lookup_filter_key, Pairs.lookup_filter_key, if_pos hkey, if_pos hkey] at hsame
    exact hsame
  apply ofHost_congr hpairs hothers
  intro setting hsetting
  obtain ⟨hhost, hname⟩ := isKnown_of_mem hsetting
  exact given?_congr (hlookup _ hhost) (hlookup _ hname)

/-- A name in files belongs to one setting, and to no other one as a name for host applications. -/
theorem names_apart : ∀ setting ∈ allNames, ∀ other ∈ allNames,
    (other.hostName = setting.name → setting.hostName = setting.name) ∧
      (other.name = setting.name → other.hostName = setting.hostName) := by
  decide +kernel

/-- A pair under the name in files is passed over beside one under the name for host
applications. -/
theorem ofHost_of_passed {setting : SettingName} (hsetting : setting ∈ allNames)
    (hpairs : (pairs.map Prod.fst).Nodup) (hhost : setting.hostName ∈ pairs.map Prod.fst)
    (hname : setting.name ∉ pairs.map Prod.fst) (value : Value) :
    ofHost ((setting.name, value) :: pairs) = ofHost pairs := by
  have hlookup : ∀ key, key ≠ setting.name →
      List.lookup key ((setting.name, value) :: pairs) = pairs.lookup key := by
    intro key hkey
    rw [List.lookup_cons, beq_eq_false_iff_ne.2 hkey]
  have hmixed : setting.hostName ≠ setting.name := by
    intro hsame
    rw [hsame] at hhost
    exact hname hhost
  have hmore : (((setting.name, value) :: pairs).map Prod.fst).Nodup :=
    List.nodup_cons.2 ⟨hname, hpairs⟩
  apply ofHost_congr hpairs hmore
  intro other hother
  obtain ⟨hforeign, hown⟩ := names_apart setting hsetting other hother
  have hothers := hlookup other.hostName fun hsame => hmixed (hforeign hsame)
  by_cases hgiven : other.hostName ∈ pairs.map Prod.fst
  · rw [given?_of_host hgiven, given?_of_host (List.mem_cons_of_mem _ hgiven), hothers]
  · refine given?_congr hothers (hlookup other.name fun hsame => ?_)
    rw [hown hsame] at hgiven
    exact hgiven hhost

/-- Settings that were read from a host application's pairs are read again from their dump, under
the names in files and under those for host applications. The same settings are read from any pairs
that agree with the given ones on the known keys, in any order, and from the given ones with a pair
under a setting's name in files beside the one under its name for host applications. -/
theorem host_settings_stable {settings : Settings} (hkeys : (pairs.map Prod.fst).Nodup)
    (haccepted : ofHost pairs = .ok settings) :
    (ofHost (settings.dumpUnder SettingName.name) = .ok settings ∧
      ofHost (settings.dumpUnder SettingName.hostName) = .ok settings) ∧
    (∀ others : List (String × Value), (others.map Prod.fst).Nodup →
      (others.filter fun pair => isKnown pair.1).Perm (pairs.filter fun pair => isKnown pair.1) →
      ofHost others = .ok settings) ∧
    ∀ setting ∈ allNames, setting.hostName ∈ pairs.map Prod.fst →
      setting.name ∉ pairs.map Prod.fst → ∀ (value : Value) (others : List (String × Value)),
        others.Perm ((setting.name, value) :: pairs) → ofHost others = .ok settings := by
  refine ⟨⟨ofHost_dumpUnder (Or.inl rfl) settings, ofHost_dumpUnder (Or.inr rfl) settings⟩, ?_, ?_⟩
  · intro others hothers hknown
    rw [ofHost_of_known hkeys hothers hknown, haccepted]
  · intro setting hsetting hhost hname value others hperm
    have hmore : (((setting.name, value) :: pairs).map Prod.fst).Nodup :=
      List.nodup_cons.2 ⟨hname, hkeys⟩
    have hothers : (others.map Prod.fst).Nodup := (hperm.map Prod.fst).nodup_iff.2 hmore
    rw [ofHost_of_known hmore hothers (hperm.filter _),
      ofHost_of_passed hsetting hkeys hhost hname value, haccepted]

/-- What a host application gives: a word for a truth value, a number in text, and a pair that is
no setting. -/
def worded : List (String × Value) :=
  [("showErrors", .text "ON"), ("theme", .null), ("timeout", .text "1_0"),
    ("stop_on_warning", .int 1)]

/-- Words and numbers in text are read once and for all, whatever stands beside them. -/
theorem host_settings_stable_worded :
    (worded.map Prod.fst).Nodup ∧ ∃ settings, ofHost worded = .ok settings ∧
      ofHost (settings.dumpUnder SettingName.hostName) = .ok settings ∧
      ofHost [("timeout", .text "1_0"), ("stop_on_warning", .int 1), ("showErrors", .text "ON")] =
        .ok settings ∧
      ofHost (("show_errors", .list []) :: worded) = .ok settings := by
  have hkeys : (worded.map Prod.fst).Nodup := by decide
  have hturned : ∀ a b c : String × Value, ([b, c] ++ [a]).Perm ([a] ++ [b, c]) :=
    fun _ _ _ => List.perm_append_comm
  refine ⟨hkeys, _, rfl, ?_, ?_, ?_⟩
  · exact (host_settings_stable hkeys rfl).1.2
  · exact (host_settings_stable hkeys rfl).2.1 _ (by decide) (hturned _ _ _)
  · exact (host_settings_stable hkeys rfl).2.2 .showErrors (by simp [allNames]) (by decide)
      (by decide) (.list []) _ (.refl _)

end Pairs

end Settings

end MarkupTidy
