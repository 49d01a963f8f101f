import MarkupTidy.Proofs.Files.MadeDirectories
import MarkupTidy.Proofs.Text.Utf8
import MarkupTidy.Proofs.Toml.Accepted
import MarkupTidy.Proofs.Toml.RoundTrip
import MarkupTidy.Proofs.Toml.Same
import MarkupTidy.Settings.File

/-!
Saved settings. What is written to a settings file reads back as the tables that were there, each
as it was, and one table with the settings that have a value.
-/
namespace MarkupTidy.Settings

open Toml

/-- What a settings file holds under a name of its settings table: the options under their shorter
name if there are any, and every other setting that has a value. -/
def stored? (settings : Settings) (name : String) : Option Value :=
  if name = optionsName then
    if settings.options.entries.isEmpty then none else some (.table settings.options.entries)
  else if name = SettingName.options.name then none
  else (settings.dump.lookup name).filter fun value => !value.isNull

/-- The names of all settings in files. -/
def settingNames : List String := (dump {}).map Prod.fst

theorem nodup_dump (settings : Settings) : (settings.dump.map Prod.fst).Nodup := by
  show settingNames.Nodup
  decide

/-- The settings that are stored under their own names. -/
def plainSettings (settings : Settings) : Table :=
  settings.dump.filter fun entry => !(entry.1 == SettingName.options.name) && !entry.2.isNull

theorem toTable_eq (settings : Settings) :
    settings.toTable = plainSettings settings ++
      if settings.options.entries.isEmpty then [] else
        [(optionsName, .table settings.options.entries)] := by
  unfold toTable plainSettings
  simp only
  split <;> simp

theorem lookup_plainSettings (settings : Settings) (name : String) :
    (plainSettings settings).lookup name =
      if name = SettingName.options.name then none
      else (settings.dump.lookup name).filter fun value => !value.isNull := by
  rw [plainSettings, Pairs.lookup_filter _ (nodup_dump settings)]
  by_cases hname : name = SettingName.options.name
  · cases settings.dump.lookup name <;> simp [hname, Option.filter]
  · have hbeq : (name == SettingName.options.name) = false := beq_eq_false_iff_ne.2 hname
    simp [hname, hbeq]

theorem lookup_toTable (settings : Settings) (name : String) :
    settings.toTable.lookup name = settings.stored? name := by
  rw [toTable_eq, List.lookup_append, lookup_plainSettings, stored?]
  by_cases hname : name = optionsName
  · subst hname
    have hnone : settings.dump.lookup optionsName = none := by
      rw [Pairs.lookup_eq_none]
      show optionsName ∉ settingNames
      decide
    rw [if_neg (by decide), hnone, if_pos rfl]
    split <;> simp
  · have hoptions : (if settings.options.entries.isEmpty then [] else
        [(optionsName, Value.table settings.options.entries)]).lookup name = none := by
      rw [Pairs.lookup_eq_none]
      split <;> simp [hname]
    rw [if_neg hname, hoptions, Option.or_none]

theorem genuine_dump {settings : Settings}
    (h : ∀ entry ∈ settings.options.entries, entry.2.IsGenuine) :
    ∀ entry ∈ settings.dump, entry.2.IsGenuine := by
  intro entry hentry
  simp only [dump, List.mem_cons, List.not_mem_nil, or_false] at hentry
  rcases hentry with rfl | rfl | rfl | rfl | rfl | rfl | rfl | rfl | rfl | rfl
  case inr.inr.inr.inr.inl =>
    exact (Value.isGenuine_table _).2 ⟨settings.options.distinct, h⟩
  case inl => cases settings.executable <;> trivial
  case inr.inr.inr.inr.inr.inr.inr.inr.inr => cases settings.timeout <;> trivial
  all_goals trivial

theorem genuine_toTable {settings : Settings}
    (h : ∀ entry ∈ settings.options.entries, entry.2.IsGenuine) :
    Value.TableGenuine settings.toTable := by
  have hplain : (plainSettings settings).Sublist settings.dump := List.filter_sublist
  have hkeys : ((plainSettings settings).map Prod.fst).Nodup :=
    (hplain.map Prod.fst).nodup (nodup_dump settings)
  have hvalues : ∀ entry ∈ plainSettings settings, entry.2.IsGenuine :=
    fun entry hentry => genuine_dump h entry (hplain.subset hentry)
  have hnew : optionsName ∉ (plainSettings settings).map Prod.fst := by
    intro hmem
    have hname : optionsName ∈ settingNames := (hplain.map Prod.fst).subset hmem
    revert hname
    decide
  have htable : (Value.table settings.options.entries).IsGenuine :=
    (Value.isGenuine_table _).2 ⟨settings.options.distinct, h⟩
  rw [toTable_eq]
  split
  · rw [List.append_nil]
    exact ⟨hkeys, hvalues⟩
  · rw [← Pairs.set_of_notMem hnew]
    have hgenuine : Value.TableGenuine (plainSettings settings) := ⟨hkeys, hvalues⟩
    exact hgenuine.set htable optionsName

theorem existingTables_genuine {host : Host} {path : Path} {tables : Table}
    (h : existingTables host path = .ok tables) : Value.TableGenuine tables := by
  unfold existingTables at h
  obtain ⟨found, -, h⟩ := step_eq_ok h
  split at h
  · obtain ⟨octets, -, h⟩ := step_eq_ok h
    unfold readTables at h
    split at h
    · cases h
    · next text htext =>
      cases hread : Toml.read text with
      | error fault =>
        rw [hread] at h
        cases h
      | ok table =>
        rw [hread] at h
        cases h
        exact read_genuine hread
  · cases h
    exact .nil

/-- What is written is read back in the order in which it was written. -/
theorem readTables_written {existing : Table} {settings : Settings} {octets : Text.Utf8.Octets}
    (hgenuine : Value.TableGenuine (Pairs.set tableName (.table settings.toTable) existing))
    (h : fileOctets existing settings = .ok octets) (path : Path) :
    readTables path octets =
      .ok (arrangeTable (Pairs.set tableName (.table settings.toTable) existing)) := by
  unfold fileOctets at h
  cases hwrite : Toml.write (Pairs.set tableName (.table settings.toTable) existing) with
  | error fault =>
    rw [hwrite] at h
    cases h
  | ok text =>
    rw [hwrite] at h
    cases h
    unfold readTables
    simp only [Text.Utf8.decode_encode]
    rw [read_write hgenuine hwrite]
    rfl

/-- What is written is read back as it was, up to the order of entries. -/
theorem readTables_fileOctets {existing : Table} {settings : Settings} {octets : Text.Utf8.Octets}
    (hexisting : Value.TableGenuine existing)
    (hoptions : ∀ entry ∈ settings.options.entries, entry.2.IsGenuine)
    (h : fileOctets existing settings = .ok octets) (path : Path) :
    ∃ table, readTables path octets = .ok table ∧
      ∀ name, Option.Rel Value.Same
        ((Pairs.set tableName (.table settings.toTable) existing).lookup name)
        (table.lookup name) := by
  have hgenuine := hexisting.set ((Value.isGenuine_table _).2 (genuine_toTable hoptions)) tableName
  exact ⟨_, readTables_written hgenuine h path, same_arrangeTable _ hgenuine⟩

/-- What is the same as a table is a table with the same values. -/
theorem same_table {entries : Table} {found : Option Value}
    (h : Option.Rel Value.Same (some (.table entries)) found) :
    ∃ entries', found = some (.table entries') ∧
      ∀ name, Option.Rel Value.Same (entries.lookup name) (entries'.lookup name) := by
  cases h with
  | some h =>
    cases h with
    | refl =>
      refine ⟨entries, rfl, fun name => ?_⟩
      cases entries.lookup name with
      | none => exact .none
      | some value => exact .some (.refl value)
    | table hvalues => exact ⟨_, rfl, hvalues⟩

theorem save_parts {host host' : Host} {workspace path : Path} {settings : Settings}
    (h : save host workspace settings = (.ok path, host')) :
    ∃ existing octets, existingTables host (filePath workspace) = .ok existing ∧
      fileOctets existing settings = .ok octets ∧
      host.replaceFile (filePath workspace) octets = (.ok ⟨⟩, host') := by
  unfold save at h
  simp only at h
  split at h
  · cases h
  · next octets hoctets =>
    obtain ⟨existing, hexisting, hoctets⟩ := step_eq_ok hoctets
    refine ⟨existing, octets, hexisting, hoctets, ?_⟩
    obtain ⟨hresult, hhost⟩ := Prod.mk.inj h
    cases hreplace : host.replaceFile (filePath workspace) octets with
    | mk result after =>
      rw [hreplace] at hresult hhost
      cases result with
      | error fault => cases hresult
      | ok done => rw [← hhost]

theorem path_of_save {host host' : Host} {workspace path : Path} {settings : Settings}
    (h : save host workspace settings = (.ok path, host')) : path = filePath workspace := by
  unfold save at h
  dsimp only at h
  split at h
  · cases h
  · next octets _ =>
    obtain ⟨hresult, -⟩ := Prod.mk.inj h
    cases hreplace : (host.replaceFile (filePath workspace) octets).1 with
    | error fault =>
      rw [hreplace] at hresult
      cases hresult
    | ok done =>
      rw [hreplace] at hresult
      exact (Except.ok.inj hresult).symm

/-- Saving fails where the settings file cannot be replaced. -/
theorem save_fails {host : Host} {workspace : Path} {settings : Settings}
    (h : ∀ octets, ∃ fault after, host.replaceFile (filePath workspace) octets =
      (.error fault, after)) :
    ∃ fault after, save host workspace settings = (.error fault, after) := by
  cases hsave : save host workspace settings with
  | mk result after =>
    cases result with
    | error fault => exact ⟨fault, after, rfl⟩
    | ok path =>
      obtain ⟨-, octets, -, -, hreplace⟩ := save_parts hsave
      obtain ⟨fault, other, hfails⟩ := h octets
      cases hfails.symm.trans hreplace

/-- Saving settings keeps every other table of the settings file: the octets that are written, which
the file holds afterwards, read back as the tables that were there, each with the same value, and as
a table of the settings that have a value. -/
theorem save_keeps_tables {host host' : Host} {workspace path : Path} {settings : Settings}
    (hsave : save host workspace settings = (.ok path, host'))
    (hoptions : ∀ entry ∈ settings.options.entries, entry.2.IsGenuine) :
    ∃ existing octets table tidy,
      existingTables host (filePath workspace) = .ok existing ∧
      host.replaceFile (filePath workspace) octets = (.ok ⟨⟩, host') ∧
      host.Gains (filePath workspace) octets host' ∧
      readTables (filePath workspace) octets = .ok table ∧
      (∀ name, name ≠ tableName →
        Option.Rel Value.Same (existing.lookup name) (table.lookup name)) ∧
      table.lookup tableName = some (.table tidy) ∧
      ∀ name, Option.Rel Value.Same (settings.stored? name) (tidy.lookup name) := by
  obtain ⟨existing, octets, hexisting, hoctets, hreplace⟩ := save_parts hsave
  obtain ⟨table, hread, hsame⟩ := readTables_fileOctets (existingTables_genuine hexisting) hoptions
    hoctets (filePath workspace)
  have htidy := hsame tableName
  rw [Pairs.lookup_set, if_pos rfl] at htidy
  obtain ⟨tidy, hlookup, hvalues⟩ : ∃ tidy, table.lookup tableName = some (.table tidy) ∧
      ∀ name, Option.Rel Value.Same (settings.toTable.lookup name) (tidy.lookup name) :=
    same_table htidy
  have hends : FileTree.EndsInName (FileTree.steps (filePath workspace).text) :=
    FileTree.endsInName_child _ (by decide) (by decide)
  refine ⟨existing, octets, table, tidy, hexisting, hreplace,
    Host.gains_of_replaceFile hreplace hends, hread, ?_, hlookup, ?_⟩
  · intro name hname
    have hother := hsame name
    rwa [Pairs.lookup_set, if_neg hname] at hother
  · intro name
    rw [← lookup_toTable]
    exact hvalues name

/-- A path from the root that the system walks along these parts. -/
structure Walks (text : String) (parts : List String) : Prop where
  isNamed : text.isEmpty = false
  isShort : FileTree.isPathTooLong text = false
  hasNoNul : Host.hasNul text = false
  start : FileTree.walkStart [] text = []
  steps : FileTree.steps text = parts

theorem reach_eq (host : Host) (hroot : host.directory = []) {text : String} {parts : List String}
    (h : Walks text parts) (purpose : Purpose) (paths : List String) :
    host.reach purpose text paths =
      (host.tree.walkFrom purpose FileTree.linkLimit [] parts).mapError fun refusal =>
        .refused ⟨refusal, paths⟩ := by
  simp [Host.reach, Host.walk, FileTree.walk, FileTree.node?, h.isNamed, h.isShort, h.hasNoNul,
    hroot, h.start, h.steps]

def untimed : Settings := { timeout := none }

def otherTables : Table := [("other", .table [("x", .int 1)])]

def otherText : List Char := "[other]\nx = 1\n".toList

def topDirectory : Path := ⟨.root, []⟩

/-- A workspace whose settings file holds another table. -/
def sharedHost : Host where
  tree := ⟨[([".tidyhtml"], .directory),
    ([".tidyhtml", "config.toml"], .file ⟨Text.Utf8.encode otherText, 0o600, none⟩)]⟩
  directory := []
  searchPath := ""

theorem walks_file : Walks (filePath topDirectory).text [".tidyhtml", "config.toml"] :=
  ⟨by decide, by decide, by decide, by decide, by decide⟩

theorem walks_directory : Walks (filePath topDirectory).parent.text [".tidyhtml"] :=
  ⟨by decide, by decide, by decide, by decide, by decide⟩

theorem walks_temporary : Walks "/.tidyhtml/.tmp_00000000.toml"
    [".tidyhtml", ".tmp_00000000.toml"] :=
  ⟨by decide, by decide, by decide, by decide, by decide⟩

theorem isShort_directory : FileTree.isNameTooLong ".tidyhtml" = false := by decide

theorem isShort_file : FileTree.isNameTooLong "config.toml" = false := by decide

theorem isShort_temporary : FileTree.isNameTooLong ".tmp_00000000.toml" = false := by decide

theorem genuine_otherTables : Value.TableGenuine otherTables := by
  have hinner : Value.TableGenuine [("x", .int 1)] := by
    refine ⟨by decide, fun entry hentry => ?_⟩
    rw [List.mem_singleton.1 hentry]
    trivial
  refine ⟨by decide, fun entry hentry => ?_⟩
  rw [List.mem_singleton.1 hentry]
  exact (Value.isGenuine_table _).2 hinner

theorem existing_shared : existingTables sharedHost (filePath topDirectory) = .ok otherTables := by
  have hreach : sharedHost.reach .target (filePath topDirectory).text
      [(filePath topDirectory).text] = .ok (.node [".tidyhtml", "config.toml"]
        (.file ⟨Text.Utf8.encode otherText, 0o600, none⟩)) := by
    rw [reach_eq sharedHost rfl walks_file]
    simp [FileTree.walkFrom, FileTree.node?, Node.isDirectory, List.lookup_cons, sharedHost,
      isShort_directory, isShort_file, Except.mapError]
  have hreadable : File.isReadable ⟨Text.Utf8.encode otherText, 0o600, none⟩ = true := rfl
  have hwrite : Toml.write otherTables = .ok otherText := rfl
  have harranged : arrangeTable otherTables = otherTables := rfl
  have hread := read_write genuine_otherTables hwrite
  rw [harranged] at hread
  simp only [existingTables, Host.exists?, Host.look, Host.readOctets, Host.stat, hreach,
    Except.map, Option.isSome, bind, Except.bind, if_true, hreadable, readTables,
    Text.Utf8.decode_encode, hread]
  rfl

theorem makeDirectories_shared :
    sharedHost.makeDirectories (filePath topDirectory).parent = (.ok ⟨⟩, sharedHost) := by
  have hreach : ∀ purpose, sharedHost.reach purpose (filePath topDirectory).parent.text
      [(filePath topDirectory).parent.text] = .ok (.node [".tidyhtml"] .directory) := by
    intro purpose
    rw [reach_eq sharedHost rfl walks_directory]
    simp [FileTree.walkFrom, FileTree.node?, Node.isDirectory, sharedHost, isShort_directory,
      Except.mapError]
  unfold Host.makeDirectories Host.makeDirectory
  rw [hreach]
  simp only [Host.failed, Host.orPresent, Host.isDirectory, Host.stat, hreach]
  rfl

/-- The host while the new content lies in a temporary file. -/
def filledHost (octets : Text.Utf8.Octets) : Host :=
  { sharedHost with tree := ⟨sharedHost.tree.entries ++
    [([".tidyhtml", ".tmp_00000000.toml"], .file ⟨octets, Host.privateMode, none⟩)]⟩ }

theorem renameOver_filled (octets : Text.Utf8.Octets) :
    ((filledHost octets).renameOver [".tidyhtml", ".tmp_00000000.toml"]
      ["/.tidyhtml/.tmp_00000000.toml", (filePath topDirectory).text]
      (filePath topDirectory)).1 = .ok ⟨⟩ := by
  have hnode : (filledHost octets).tree.node? [".tidyhtml", ".tmp_00000000.toml"] =
      some (.file ⟨octets, Host.privateMode, none⟩) := rfl
  have hreach : (filledHost octets).reach .link (filePath topDirectory).text
      ["/.tidyhtml/.tmp_00000000.toml", (filePath topDirectory).text] =
        .ok (.node [".tidyhtml", "config.toml"]
          (.file ⟨Text.Utf8.encode otherText, 0o600, none⟩)) := by
    rw [reach_eq _ rfl walks_file]
    simp [FileTree.walkFrom, FileTree.node?, Node.isDirectory, List.lookup_cons, filledHost,
      sharedHost, isShort_directory, isShort_file, Except.mapError]
  simp only [Host.renameOver, hnode, hreach]
  rfl

theorem replace_shared (octets : Text.Utf8.Octets) :
    (sharedHost.replaceFile (filePath topDirectory) octets).1 = .ok ⟨⟩ := by
  have habsolute : sharedHost.absolute (filePath topDirectory).parent =
      .ok (filePath topDirectory).parent := rfl
  have hfresh : ((filePath topDirectory).parent.child (sharedHost.freshName
      (filePath topDirectory).parent.parts (filePath topDirectory).suffix)).text =
      "/.tidyhtml/.tmp_00000000.toml" := by decide
  have htemporary : sharedHost.reach .link "/.tidyhtml/.tmp_00000000.toml"
      ["/.tidyhtml/.tmp_00000000.toml"] = .ok (.vacant [".tidyhtml", ".tmp_00000000.toml"]) := by
    rw [reach_eq sharedHost rfl walks_temporary]
    simp [FileTree.walkFrom, FileTree.node?, Node.isDirectory, List.lookup_cons, sharedHost,
      isShort_directory, isShort_temporary, Except.mapError]
  have hrefuses : ∀ step, sharedHost.refuses step = none := fun _ => rfl
  have hreplace : sharedHost.replaceFile (filePath topDirectory) octets =
      Host.withoutTemporary [".tidyhtml", ".tmp_00000000.toml"]
        ((filledHost octets).renameOver [".tidyhtml", ".tmp_00000000.toml"]
          ["/.tidyhtml/.tmp_00000000.toml", (filePath topDirectory).text]
          (filePath topDirectory)) := by
    simp only [Host.replaceFile, hrefuses, makeDirectories_shared, Host.replaceBeside, habsolute,
      hfresh, Host.createTemporary, htemporary]
    rfl
  have hrenamed := renameOver_filled octets
  rw [hreplace]
  generalize (filledHost octets).renameOver _ _ _ = renamed at hrenamed ⊢
  obtain ⟨result, after⟩ := renamed
  cases hrenamed
  rfl

theorem save_shared :
    (save sharedHost topDirectory untimed).1 = .ok (filePath topDirectory) := by
  have hwritten : (Toml.write (Pairs.set tableName (.table untimed.toTable) otherTables)).isOk =
      true := rfl
  cases hwrite : Toml.write (Pairs.set tableName (.table untimed.toTable) otherTables) with
  | error fault =>
    rw [hwrite] at hwritten
    cases hwritten
  | ok text =>
    have hreplace := replace_shared (Text.Utf8.encode text)
    simp only [save, existing_shared, fileOctets, hwrite, bind, Except.bind, Except.mapError,
      Except.map, hreplace]

/-- Saving settings without a time limit keeps the table that is there. -/
theorem save_keeps_tables_shared :
    (save sharedHost topDirectory untimed =
      (.ok (filePath topDirectory), (save sharedHost topDirectory untimed).2)) ∧
    (∀ entry ∈ untimed.options.entries, entry.2.IsGenuine) ∧
    ∃ existing octets table tidy,
      existingTables sharedHost (filePath topDirectory) = .ok existing ∧
      sharedHost.replaceFile (filePath topDirectory) octets =
        (.ok ⟨⟩, (save sharedHost topDirectory untimed).2) ∧
      sharedHost.Gains (filePath topDirectory) octets (save sharedHost topDirectory untimed).2 ∧
      readTables (filePath topDirectory) octets = .ok table ∧
      (∀ name, name ≠ tableName →
        Option.Rel Value.Same (existing.lookup name) (table.lookup name)) ∧
      table.lookup tableName = some (.table tidy) ∧
      ∀ name, Option.Rel Value.Same (untimed.stored? name) (tidy.lookup name) := by
  have hsave : save sharedHost topDirectory untimed =
      (.ok (filePath topDirectory), (save sharedHost topDirectory untimed).2) :=
    Prod.ext save_shared rfl
  have hoptions : ∀ entry ∈ untimed.options.entries, entry.2.IsGenuine :=
    fun entry hentry => by cases hentry
  exact ⟨hsave, hoptions, save_keeps_tables hsave hoptions⟩

end MarkupTidy.Settings
