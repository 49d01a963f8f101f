import MarkupTidy.Proofs.Files.MadeDirectories
import MarkupTidy.Proofs.Settings.Saved
import MarkupTidy.Proofs.Toml.Writable

/-!
Settings that were saved, loaded again. The writer leaves out what has no value and renames the
options; the reader renames them back and fills in standards. A table of settings is therefore
followed by what its names lead to: `Settings.stored?` in the table that is written, `lookup_stored`
after it was arranged and read again, `lookup_named` when the options have their own name, and
`ofGiven_named` for the settings read from it. Only a missing time limit does not come back.
-/
namespace MarkupTidy.Settings

open Toml

/-- A text, a number or a truth value. -/
def IsPlain : Value → Bool
  | .text _ | .int _ | .float _ | .bool _ => true
  | _ => false

theorem isSectioned_plain {value : Value} (h : IsPlain value = true) :
    isSectioned value = .ok false := by
  cases value <;> first | rfl | cases h

/-- A plain value can be written unless it is an integer with too many digits. -/
theorem writable_plain {name : List Char} {key : String} {value : Value}
    (h : IsPlain value = true) :
    Writable name (key, value) ↔ ∀ i, value = .int i → integerText? i ≠ none := by
  have hsection : Succeeds (writeSection (sectionName name key) value) := by
    cases value with
    | int i | bool b | float x | text s => exact ⟨[], by simp [writeSection]⟩
    | _ => cases h
  have hwritable : Writable name (key, value) ↔ Succeeds (writeValue 0 value) :=
    ⟨fun hentry => by
      obtain ⟨b, hb, hplain⟩ := hentry.plain
      rw [isSectioned_plain h] at hb
      cases hb
      exact hplain rfl,
    fun hvalue => ⟨⟨false, isSectioned_plain h, fun _ => hvalue⟩, hsection⟩⟩
  rw [hwritable]
  cases value with
  | int i =>
    rw [writeValue, writeInteger]
    cases htext : integerText? i <;> simp [Succeeds, htext]
  | bool b | float x | text s => simp [writeValue, succeeds_ok]
  | _ => cases h

theorem writable_table (name : List Char) (key : String) (entries : Table) :
    Writable name (key, .table entries) ↔
      ∀ entry ∈ entries, Writable (sectionName name key) entry := by
  rw [← succeeds_section]
  exact ⟨Writable.below, fun h => ⟨⟨true, rfl, nofun⟩, h⟩⟩

/-- The plain settings that have a value are texts, numbers and truth values, and no integers. -/
theorem plainSettings_values (settings : Settings) :
    ∀ entry ∈ plainSettings settings, IsPlain entry.2 = true ∧ ∀ i, entry.2 ≠ .int i := by
  intro entry hentry
  obtain ⟨hentry, hkeep⟩ := List.mem_filter.1 hentry
  simp only [dump, List.mem_cons, List.not_mem_nil, or_false] at hentry
  rcases hentry with rfl | rfl | rfl | rfl | rfl | rfl | rfl | rfl | rfl | rfl
  case inr.inr.inr.inr.inl => simp at hkeep
  case inl =>
    cases hexecutable : settings.executable with
    | none => simp [hexecutable, Value.isNull] at hkeep
    | some path => exact ⟨rfl, nofun⟩
  case inr.inr.inr.inr.inr.inr.inr.inr.inr =>
    cases htimeout : settings.timeout with
    | none => simp [htimeout, Value.isNull] at hkeep
    | some limit => exact ⟨rfl, nofun⟩
  all_goals exact ⟨rfl, nofun⟩

theorem mem_toTable {settings : Settings} {entry : String × Value}
    (h : entry ∈ settings.toTable) :
    entry ∈ plainSettings settings ∨ entry = (optionsName, .table settings.options.entries) := by
  rw [toTable_eq, List.mem_append] at h
  refine h.imp_right fun hoptions => ?_
  split at hoptions
  · cases hoptions
  · exact List.mem_singleton.1 hoptions

/-- The tables of a settings file but for the one with the settings. -/
def otherThanSettings (tables : Table) : Table := tables.filter fun entry => entry.1 != tableName

/-- An option is an integer with more digits than are written. -/
def HasLongInteger (settings : Settings) : Prop :=
  ∃ entry ∈ settings.options.entries, ∃ i, entry.2 = .int i ∧ integerText? i = none

theorem writable_toTable {settings : Settings}
    (hplain : ∀ entry ∈ settings.options.entries, IsPlain entry.2 = true)
    (hdigits : ¬ settings.HasLongInteger) (name : List Char) :
    ∀ entry ∈ settings.toTable, Writable name entry := by
  intro entry hentry
  rcases mem_toTable hentry with hplainSetting | rfl
  · obtain ⟨hvalue, hint⟩ := plainSettings_values settings entry hplainSetting
    exact (writable_plain hvalue).2 fun i hi => absurd hi (hint i)
  · rw [writable_table]
    intro option hoption
    exact (writable_plain (hplain option hoption)).2 fun i hi hlong =>
      hdigits ⟨option, hoption, i, hi, hlong⟩

theorem inlineDepth_plain {value : Value} (h : IsPlain value = true) : inlineDepth value = 0 := by
  cases value <;> first | rfl | cases h

theorem entryDepth_plain {value : Value} (h : IsPlain value = true) : entryDepth value = 0 := by
  rw [entryDepth_of_plain (isSectioned_plain h), inlineDepth_plain h]

theorem sectionDepth_toTable {settings : Settings}
    (hflat : ∀ entry ∈ settings.options.entries, entryDepth entry.2 = 0) :
    sectionDepth settings.toTable ≤ 1 := by
  rw [sectionDepth_le_iff]
  intro entry hentry
  rcases mem_toTable hentry with hplainSetting | rfl
  · rw [entryDepth_plain (plainSettings_values settings entry hplainSetting).1]
    exact Nat.zero_le 1
  · have hoptions : sectionDepth settings.options.entries ≤ 0 := by
      rw [sectionDepth_le_iff]
      exact fun option hoption => Nat.le_of_eq (hflat option hoption)
    rw [entryDepth]
    omega

/-- A settings file holds the table of the settings and the other tables that were there. -/
theorem mem_fileTables {existing : Table} (hexisting : Value.TableGenuine existing)
    {values : Value} {entry : String × Value} (h : entry ∈ Pairs.set tableName values existing) :
    entry = (tableName, values) ∨ entry ∈ otherThanSettings existing := by
  by_cases hname : entry.1 = tableName
  · have hkeys : ((Pairs.set tableName values existing).map Prod.fst).Nodup :=
      Pairs.nodup_set hexisting.keys
    exact Or.inl (List.inj_on_of_nodup_map hkeys h (Pairs.mem_set_self _ _ _) hname)
  · rcases Pairs.mem_set h with hold | hnew
    · exact Or.inr (List.mem_filter.2 ⟨hold, by simpa using hname⟩)
    · exact Or.inl hnew

/-- If there are options, the table of the settings holds them. -/
theorem options_mem_toTable {settings : Settings} {option : String × Value}
    (h : option ∈ settings.options.entries) :
    (optionsName, Value.table settings.options.entries) ∈ settings.toTable := by
  rw [toTable_eq, if_neg (by simpa using List.ne_nil_of_mem h)]
  simp

/-- An option can be written where the table of the settings can. -/
theorem writable_option {name : List Char} {settings : Settings} {option : String × Value}
    (h : Writable name (tableName, .table settings.toTable))
    (hoption : option ∈ settings.options.entries) :
    Writable (sectionName (sectionName name tableName) optionsName) option :=
  (writable_table _ _ _).1 ((writable_table _ _ _).1 h _ (options_mem_toTable hoption)) _ hoption

/-- The settings can be written among the tables that are there exactly if these can be written
without them, and no option has too many digits. -/
theorem succeeds_write_settings {existing : Table} {settings : Settings}
    (hexisting : Value.TableGenuine existing)
    (hplain : ∀ entry ∈ settings.options.entries, IsPlain entry.2 = true) :
    Succeeds (Toml.write (Pairs.set tableName (.table settings.toTable) existing)) ↔
      ¬ settings.HasLongInteger ∧ Succeeds (Toml.write (otherThanSettings existing)) := by
  rw [succeeds_write, succeeds_write]
  constructor
  · intro h
    refine ⟨?_, fun entry hentry => ?_⟩
    · rintro ⟨option, hoption, i, hi, hlong⟩
      have htable := (h _ (Pairs.mem_set_self tableName _ existing)).2
      exact (writable_plain (hplain option hoption)).1 (writable_option htable hoption) i hi hlong
    · obtain ⟨hold, hname⟩ := List.mem_filter.1 hentry
      exact h entry (Pairs.mem_set_of_ne hold (by simpa using hname) _)
  · rintro ⟨hdigits, hothers⟩ entry hentry
    rcases mem_fileTables hexisting hentry with rfl | hother
    · refine ⟨?_, (writable_table _ _ _).2 (writable_toTable hplain hdigits _)⟩
      have hdepth := sectionDepth_toTable fun option hoption =>
        entryDepth_plain (hplain option hoption)
      rw [entryDepth, nestingRoom]
      omega
    · exact hothers entry hother

/-- What arranging a table makes of a value in it. -/
def arranged (value : Value) : Value := if sectioned value then arrange value else value

theorem lookup_arrangeTable {entries : Table} (h : (entries.map Prod.fst).Nodup) (name : String) :
    (arrangeTable entries).lookup name = (entries.lookup name).map arranged := by
  induction entries with
  | nil => rfl
  | cons entry rest ih =>
    obtain ⟨key, value⟩ := entry
    obtain ⟨hnew, hrest⟩ := List.nodup_cons.1 h
    by_cases hname : name = key
    · subst hname
      rw [lookup_arrangeTable_self value hnew, List.lookup_cons_self]
      rfl
    · rw [lookup_arrangeTable_ne hname, ih hrest, List.lookup_cons, beq_eq_false_iff_ne.2 hname]

theorem arranged_plain {value : Value} (h : IsPlain value = true) : arranged value = value := by
  rw [arranged, sectioned_of_ok (isSectioned_plain h)]
  rfl

theorem arrangeSections_plain {entries : Table} (h : ∀ entry ∈ entries, IsPlain entry.2 = true) :
    arrangeSections entries = [] := by
  induction entries with
  | nil => rw [arrangeSections]
  | cons entry rest ih =>
    have hplain := sectioned_of_ok (isSectioned_plain (h entry List.mem_cons_self))
    rw [arrangeSections, hplain]
    exact ih fun entry hentry => h entry (List.mem_cons_of_mem _ hentry)

/-- A table of plain values is written in its order. -/
theorem arranged_table {entries : Table} (h : ∀ entry ∈ entries, IsPlain entry.2 = true) :
    arranged (.table entries) = .table entries := by
  have hplain : plainEntries entries = entries := by
    refine List.filter_eq_self.2 fun entry hentry => ?_
    rw [sectioned_of_ok (isSectioned_plain (h entry hentry))]
    rfl
  show Value.table (plainEntries entries ++ arrangeSections entries) = _
  rw [hplain, arrangeSections_plain h, List.append_nil]

theorem genuine_plain {value : Value} (h : IsPlain value = true) : value.IsGenuine := by
  cases value <;> trivial

/-- The table of the settings, as the file that is written holds it. -/
theorem lookup_stored {settings : Settings}
    (hplain : ∀ entry ∈ settings.options.entries, IsPlain entry.2 = true) (name : String) :
    (arrangeTable settings.toTable).lookup name = settings.stored? name := by
  have hgenuine := genuine_toTable fun entry hentry => genuine_plain (hplain entry hentry)
  rw [lookup_arrangeTable hgenuine.keys, ← lookup_toTable]
  cases hlookup : settings.toTable.lookup name with
  | none => rfl
  | some value =>
    rcases mem_toTable (Pairs.mem_of_lookup hlookup) with hsetting | hoptions
    · exact congrArg some (arranged_plain (plainSettings_values settings _ hsetting).1)
    · cases hoptions
      exact congrArg some (arranged_table hplain)

/-- What a settings file with these settings gives for a name, after the options have their own
name again. -/
def named (values : Table) : Given :=
  let others := values.filter fun entry => entry.1 != optionsName
  match values.lookup optionsName with
  | some options => Pairs.set SettingName.options.name options others
  | none => others

theorem lookup_named {values : Table} {settings : Settings}
    (h : ∀ name, values.lookup name = settings.stored? name) (name : String) :
    (named values).lookup name =
      if name = SettingName.options.name then settings.stored? optionsName
      else if name = optionsName then none
      else settings.stored? name := by
  have hothers : ∀ name, (values.filter fun entry => entry.1 != optionsName).lookup name =
      if name != optionsName then settings.stored? name else none := fun name => by
    rw [← h]
    exact Pairs.lookup_filter_key (fun key => key != optionsName) values name
  have hnone : settings.stored? SettingName.options.name = none := by
    rw [stored?, if_neg (by decide), if_pos rfl]
  unfold named
  rw [h optionsName]
  by_cases hname : name = SettingName.options.name
  · subst hname
    cases settings.stored? optionsName with
    | none =>
      rw [if_pos rfl, hothers, if_pos (by decide), hnone]
    | some options => rw [if_pos rfl, Pairs.lookup_set, if_pos rfl]
  · have hrest : (if name != optionsName then settings.stored? name else none) =
        if name = optionsName then none else settings.stored? name := by
      by_cases hoptions : name = optionsName <;> simp [hoptions]
    rw [if_neg hname]
    cases settings.stored? optionsName with
    | none => rw [hothers, hrest]
    | some options => rw [Pairs.lookup_set, if_neg hname, hothers, hrest]

/-- A setting that is stored reads as it was, or as the standard if it is not stored. -/
theorem readSetting_stored {α : Type} {values : Given} {setting : SettingName}
    {check : Value → Except Mismatch α} {standard result : α}
    (hhost : setting.hostName = setting.name ∨ values.lookup setting.hostName = none)
    (h : match values.lookup setting.name with
      | none => standard = result
      | some value => check value = .ok result) :
    readSetting values setting check standard = .ok result := by
  unfold readSetting given?
  cases hlookup : values.lookup setting.name with
  | none =>
    rw [hlookup] at h
    have hnone : values.lookup setting.hostName = none := by
      rcases hhost with hsame | hnone
      · rw [hsame, hlookup]
      · exact hnone
    rw [hnone]
    exact congrArg Except.ok h
  | some value =>
    rw [hlookup] at h
    rcases hhost with hsame | hnone
    · rw [hsame, hlookup]
      simp only [h]
      rfl
    · rw [hnone]
      simp only [Option.map_some, h]
      rfl

/-- What settings are after they were stored: without a time limit they have the standard one. -/
def reloaded (settings : Settings) : Settings :=
  { settings with timeout := some (settings.timeout.getD .standard) }

section Named

variable {values : Table} {settings : Settings}

/-- The names of host applications are not those of settings files, but for the time limit's. -/
theorem lookup_named_host (h : ∀ name, values.lookup name = settings.stored? name) {name : String}
    (hname : name ∉ optionsName :: settingNames) : (named values).lookup name = none := by
  obtain ⟨hoptions, hsetting⟩ := not_or.1 (mt List.mem_cons.2 hname)
  have hdump : settings.dump.lookup name = none := Pairs.lookup_eq_none.2 hsetting
  have hown : name ≠ SettingName.options.name := by
    rintro rfl
    exact hsetting (by decide)
  rw [lookup_named h, if_neg hown, if_neg hoptions, stored?, if_neg hoptions, if_neg hown, hdump]
  rfl

/-- A setting under its own name reads as it was, or as the standard if it has no value. -/
theorem readSetting_own (h : ∀ name, values.lookup name = settings.stored? name) {α : Type}
    {setting : SettingName} {check : Value → Except Mismatch α} {standard result : α}
    {value : Value}
    (hhost : setting.hostName = setting.name ∨ setting.hostName ∉ optionsName :: settingNames)
    (hname : setting.name ≠ SettingName.options.name ∧ setting.name ≠ optionsName)
    (hvalue : settings.dump.lookup setting.name = some value)
    (hresult : if value.isNull then standard = result else check value = .ok result) :
    readSetting (named values) setting check standard = .ok result := by
  refine readSetting_stored (hhost.imp_right (lookup_named_host h)) ?_
  rw [lookup_named h, if_neg hname.1, if_neg hname.2, stored?, if_neg hname.2, if_neg hname.1,
    hvalue]
  cases hnull : value.isNull with
  | true =>
    rw [hnull, if_pos rfl] at hresult
    simpa [Option.filter, hnull] using hresult
  | false =>
    rw [hnull, if_neg Bool.false_ne_true] at hresult
    simpa [Option.filter, hnull] using hresult

theorem readSetting_options (h : ∀ name, values.lookup name = settings.stored? name) :
    readSetting (named values) .options readOptions .empty = .ok settings.options := by
  refine readSetting_stored (Or.inr (lookup_named_host h (by decide))) ?_
  rw [lookup_named h, if_pos rfl, stored?, if_pos rfl]
  cases hoptions : settings.options with
  | mk entries distinct =>
    cases entries with
    | nil => rfl
    | cons entry rest =>
      show Except.ok (OptionMap.ofPairs (entry :: rest)) = _
      simp only [OptionMap.ofPairs, Pairs.collect_of_nodup distinct]

theorem readTimeout_limit (limit : TimeLimit) :
    readTimeout (.float limit.val) = .ok (some limit) := by
  obtain ⟨seconds, hpositive⟩ := limit
  simp [readTimeout, readNumber, toTimeLimit, hpositive, bind, Except.bind, Except.map]

/-- Settings that were stored are read as they were, but that a time limit is added if they had
none. -/
theorem ofGiven_named (h : ∀ name, values.lookup name = settings.stored? name) :
    ofGiven (named values) = .ok settings.reloaded := by
  have hexecutable : readSetting (named values) .executable readOptionalText none =
      .ok settings.executable := by
    refine readSetting_own h (Or.inr (by decide)) (by decide) rfl ?_
    cases settings.executable <;> rfl
  have hdynamicTags : readSetting (named values) .dynamicTags readBool true =
      .ok settings.dynamicTags := readSetting_own h (Or.inr (by decide)) (by decide) rfl rfl
  have hdynamicBody : readSetting (named values) .dynamicBody readBool false =
      .ok settings.dynamicBody := readSetting_own h (Or.inr (by decide)) (by decide) rfl rfl
  have hshowErrors : readSetting (named values) .showErrors readBool false =
      .ok settings.showErrors := readSetting_own h (Or.inr (by decide)) (by decide) rfl rfl
  have hstopOnWarning : readSetting (named values) .stopOnWarning readBool false =
      .ok settings.stopOnWarning := readSetting_own h (Or.inr (by decide)) (by decide) rfl rfl
  have hsecureTagCount : readSetting (named values) .secureTagCount readBool false =
      .ok settings.secureTagCount := readSetting_own h (Or.inr (by decide)) (by decide) rfl rfl
  have hfileSearch : readSetting (named values) .fileSearch readBool true =
      .ok settings.fileSearch := readSetting_own h (Or.inr (by decide)) (by decide) rfl rfl
  have hoverrideName : readSetting (named values) .overrideName readText ".htmlTidy" =
      .ok settings.overrideName := readSetting_own h (Or.inr (by decide)) (by decide) rfl rfl
  have htimeout : readSetting (named values) .timeout readTimeout (some .standard) =
      .ok (some (settings.timeout.getD .standard)) := by
    refine readSetting_own h (Or.inl rfl) (by decide) rfl ?_
    cases settings.timeout with
    | none => rfl
    | some limit => exact readTimeout_limit limit
  simp only [ofGiven, hexecutable, hdynamicTags, hdynamicBody, hshowErrors,
    readSetting_options h, hstopOnWarning, hsecureTagCount, hfileSearch, hoverrideName, htimeout]
  rfl

end Named

/-- The settings in the octets that are written are read as they were. -/
theorem ofTables_written {existing : Table} {settings : Settings}
    (hgenuine : Value.TableGenuine (Pairs.set tableName (.table settings.toTable) existing))
    (hplain : ∀ entry ∈ settings.options.entries, IsPlain entry.2 = true) (path : Path) :
    ofTables path (arrangeTable (Pairs.set tableName (.table settings.toTable) existing)) =
      .ok settings.reloaded := by
  have htable : (arrangeTable (Pairs.set tableName (.table settings.toTable) existing)).lookup
      tableName = some (.table (arrangeTable settings.toTable)) := by
    rw [lookup_arrangeTable hgenuine.keys, Pairs.lookup_set, if_pos rfl]
    rfl
  unfold ofTables
  rw [htable]
  show (ofGiven (named (arrangeTable settings.toTable))).mapError _ = _
  rw [ofGiven_named (lookup_stored hplain)]
  rfl

/-- The settings file is no link. -/
theorem reach_shared_ne_link (place : Location) (target : String) :
    sharedHost.reach .link (filePath topDirectory).text [(filePath topDirectory).text] ≠
      .ok (.node place (.link target)) := by
  intro hreach
  rw [reach_eq sharedHost rfl walks_file] at hreach
  simp [FileTree.walkFrom, FileTree.node?, Node.isDirectory, List.lookup_cons, sharedHost,
    isShort_directory, isShort_file, Except.mapError] at hreach

theorem way_shared :
    ¬ (sharedHost.makeDirectories (filePath topDirectory).parent).2.LeadsThroughItself
      (filePath topDirectory) := by
  rw [makeDirectories_shared]
  rintro ⟨place, target, hreach, -⟩
  exact reach_shared_ne_link place target hreach

theorem othersSucceed_shared : Succeeds (Toml.write (otherThanSettings otherTables)) :=
  ⟨otherText, rfl⟩

/-- Settings with an option of each plain kind. -/
def mixed : Settings where
  options := .ofPairs [("indent", .text "auto"), ("wrap", .int 0), ("quiet", .bool true),
    ("scale", .float .notANumber)]

theorem entries_mixed : mixed.options.entries = [("indent", .text "auto"), ("wrap", .int 0),
    ("quiet", .bool true), ("scale", .float .notANumber)] := rfl

theorem plain_mixed : ∀ entry ∈ mixed.options.entries, IsPlain entry.2 = true := by
  rw [entries_mixed]
  decide

theorem not_hasLongInteger_mixed : ¬ mixed.HasLongInteger := by
  rintro ⟨entry, hentry, i, hi, hlong⟩
  simp only [entries_mixed, List.mem_cons, List.not_mem_nil, or_false] at hentry
  rcases hentry with rfl | rfl | rfl | rfl <;> cases hi
  revert hlong
  decide

section SavedAndLoaded

variable {host host' : Host} {workspace : Path} {settings : Settings} {existing : Table}
  {octets : Text.Utf8.Octets}

/-- Settings that were written to the settings file of a workspace are loaded from it. -/
theorem load_written (hexisting : Value.TableGenuine existing)
    (hplain : ∀ entry ∈ settings.options.entries, IsPlain entry.2 = true)
    (hoctets : fileOctets existing settings = .ok octets)
    (hreplace : host.replaceFile (filePath workspace) octets = (.ok ⟨⟩, host'))
    (hway : ¬ (host.makeDirectories (filePath workspace).parent).2.LeadsThroughItself
      (filePath workspace)) :
    load host' workspace = .ok settings.reloaded := by
  have hends : FileTree.EndsInName (FileTree.steps (filePath workspace).text) :=
    FileTree.endsInName_child _ (by decide) (by decide)
  obtain ⟨place, hstat⟩ := Host.stat_replaceFile hreplace hends hway
  obtain ⟨hexists, hread⟩ := Host.exists_of_stat hstat (Host.isReadable_private octets)
  have hgenuine := hexisting.set ((Value.isGenuine_table _).2
    (genuine_toTable fun entry hentry => genuine_plain (hplain entry hentry))) tableName
  simp only [load, hexists, hread, readTables_written hgenuine hoctets, bind, Except.bind, if_true]
  exact ofTables_written hgenuine hplain _

theorem fileOctets_cases (existing : Table) (settings : Settings) :
    (∃ octets, fileOctets existing settings = .ok octets ∧
      Succeeds (Toml.write (Pairs.set tableName (.table settings.toTable) existing))) ∨
    ((∃ problem, fileOctets existing settings = .error (ofUnwritable problem)) ∧
      ¬ Succeeds (Toml.write (Pairs.set tableName (.table settings.toTable) existing))) := by
  unfold fileOctets
  cases Toml.write (Pairs.set tableName (.table settings.toTable) existing) with
  | error problem => exact Or.inr ⟨⟨problem, rfl⟩, nofun⟩
  | ok text => exact Or.inl ⟨_, rfl, succeeds_ok text⟩

/-- Saving puts the octets in the place of the settings file. -/
theorem save_of_octets (hexisting : existingTables host (filePath workspace) = .ok existing)
    (hoctets : fileOctets existing settings = .ok octets) :
    save host workspace settings =
      ((host.replaceFile (filePath workspace) octets).1.map fun _ => filePath workspace,
        (host.replaceFile (filePath workspace) octets).2) := by
  simp only [save, hexisting, bind, Except.bind, hoctets]

/-- Where there is nothing to put there, nothing is changed. -/
theorem save_of_unwritten (hexisting : existingTables host (filePath workspace) = .ok existing)
    {fault : Fault} (hrefused : fileOctets existing settings = .error fault) :
    save host workspace settings = (.error fault, host) := by
  simp only [save, hexisting, bind, Except.bind, hrefused]

/-- Saving settings with plain options in a workspace and loading them gives the settings back, but
that a time limit is added if they had none; unless the settings file cannot be replaced, and then
saving fails for the same reason. It also fails, and before anything is changed, exactly if an
option is an integer with too many digits, or what else the file holds cannot be written again. -/
theorem save_then_load (hexisting : existingTables host (filePath workspace) = .ok existing)
    (hplain : ∀ entry ∈ settings.options.entries, IsPlain entry.2 = true)
    (hway : ¬ (host.makeDirectories (filePath workspace).parent).2.LeadsThroughItself
      (filePath workspace)) :
    let isWritable :=
      ¬ settings.HasLongInteger ∧ Succeeds (Toml.write (otherThanSettings existing))
    (isWritable → ∃ octets, fileOctets existing settings = .ok octets ∧
      match host.replaceFile (filePath workspace) octets with
      | (.ok _, host') => save host workspace settings = (.ok (filePath workspace), host') ∧
          load host' workspace = .ok settings.reloaded
      | (.error fault, host') => save host workspace settings = (.error fault, host')) ∧
    (¬ isWritable → ∃ problem,
      save host workspace settings = (.error (ofUnwritable problem), host)) := by
  have hgenuine := existingTables_genuine hexisting
  simp only [← succeeds_write_settings hgenuine hplain]
  rcases fileOctets_cases existing settings with
    ⟨octets, hoctets, hwrites⟩ | ⟨⟨problem, hfails⟩, hnot⟩
  · have hsave := save_of_octets hexisting hoctets
    refine ⟨fun _ => ⟨octets, hoctets, ?_⟩, fun hnot => absurd hwrites hnot⟩
    split
    · next done host' hreplace =>
      rw [hreplace] at hsave
      exact ⟨hsave, load_written hgenuine hplain hoctets hreplace hway⟩
    · next fault host' hreplace =>
      rw [hreplace] at hsave
      exact hsave
  · exact ⟨fun hwrites => absurd hwrites hnot,
      fun _ => ⟨problem, save_of_unwritten hexisting hfails⟩⟩

end SavedAndLoaded

/-- In a workspace whose settings file holds another table, settings with options of every plain
kind are saved and come back. -/
theorem save_then_load_mixed :
    existingTables sharedHost (filePath topDirectory) = .ok otherTables ∧
    (∀ entry ∈ mixed.options.entries, IsPlain entry.2 = true) ∧
    ¬ (sharedHost.makeDirectories (filePath topDirectory).parent).2.LeadsThroughItself
      (filePath topDirectory) ∧
    ∃ host', save sharedHost topDirectory mixed = (.ok (filePath topDirectory), host') ∧
      load host' topDirectory = .ok mixed := by
  refine ⟨existing_shared, plain_mixed, way_shared, ?_⟩
  obtain ⟨octets, -, h⟩ := (save_then_load existing_shared plain_mixed way_shared).1
    ⟨not_hasLongInteger_mixed, othersSucceed_shared⟩
  have hdone := replace_shared octets
  generalize sharedHost.replaceFile (filePath topDirectory) octets = replaced at h hdone
  obtain ⟨result, host'⟩ := replaced
  cases hdone
  exact ⟨host', h⟩

/-- Settings without a time limit come back with one. -/
theorem time_limit_comes_back : ∃ host',
    save sharedHost topDirectory untimed = (.ok (filePath topDirectory), host') ∧
      load host' topDirectory = .ok { untimed with timeout := some .standard } ∧
      load host' topDirectory ≠ .ok untimed := by
  have hsave : save sharedHost topDirectory untimed =
      (.ok (filePath topDirectory), (save sharedHost topDirectory untimed).2) :=
    Prod.ext save_shared rfl
  obtain ⟨existing, octets, hexisting, hoctets, hreplace⟩ := save_parts hsave
  have hload : load (save sharedHost topDirectory untimed).2 topDirectory =
      .ok { untimed with timeout := some .standard } :=
    load_written (existingTables_genuine hexisting) (fun entry hentry => by cases hentry) hoctets
      hreplace way_shared
  refine ⟨_, hsave, hload, ?_⟩
  rw [hload]
  intro hsame
  cases congrArg (Except.toOption · |>.map Settings.timeout) hsame

end MarkupTidy.Settings
