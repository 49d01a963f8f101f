import MarkupTidy.Proofs.Files.Replaced
import MarkupTidy.Proofs.Settings.Saved
import MarkupTidy.Proofs.Toml.Limits

/-!
What becomes of a settings file that can be read: settings, or a report that names the file, unless
its octets are too much for their readers. Within the limits of reading, text never is.
-/
namespace MarkupTidy.Settings

open Toml

/-- Loading gave settings, or a report that names the settings file. -/
def IsReported (path : Path) (result : Except Fault Settings) : Prop :=
  (∃ settings, result = .ok settings) ∨ ∃ reason, result = .error (.settings path.text reason)

/-- The octets are no text, or hold tables beyond the limits of their reader. -/
inductive Overwhelms (octets : Text.Utf8.Octets) : Fault → Prop
  | undecodable (cause : Text.Utf8.Fault) (hdecode : Text.Utf8.decode octets = .error cause) :
    Overwhelms octets (.undecodable cause)
  | numeral (text : List Char) (digits : Nat) (hdecode : Text.Utf8.decode octets = .ok text)
    (hread : Toml.read text = .error (.tooManyDigits digits)) :
    Overwhelms octets (.numeralTooLong digits)
  | depth (text : List Char) (hdecode : Text.Utf8.decode octets = .ok text)
    (hread : Toml.read text = .error .tooDeep) :
    Overwhelms octets (.tooDeep none)

/-- Every way in which tables are read from octets. -/
theorem readTables_cases (path : Path) (octets : Text.Utf8.Octets) :
    (∃ tables, readTables path octets = .ok tables) ∨
      (∃ reason, readTables path octets = .error (.settings path.text reason)) ∨
      ∃ fault, Overwhelms octets fault ∧ readTables path octets = .error fault := by
  unfold readTables
  cases hdecode : Text.Utf8.decode octets with
  | error cause => exact Or.inr (Or.inr ⟨_, .undecodable cause hdecode, rfl⟩)
  | ok text =>
    dsimp only
    cases hread : Toml.read text with
    | ok tables => exact Or.inl ⟨tables, rfl⟩
    | error fault =>
      cases fault with
      | malformed problem place => exact Or.inr (Or.inl ⟨.malformed problem place, rfl⟩)
      | tooManyDigits digits => exact Or.inr (Or.inr ⟨_, .numeral text digits hdecode hread, rfl⟩)
      | tooDeep => exact Or.inr (Or.inr ⟨_, .depth text hdecode hread, rfl⟩)

theorem Overwhelms.readTables_eq {octets : Text.Utf8.Octets} {fault : Fault}
    (h : Overwhelms octets fault) (path : Path) : readTables path octets = .error fault := by
  cases h with
  | undecodable cause hdecode => simp only [readTables, hdecode]
  | numeral text digits hdecode hread =>
    simp only [readTables, hdecode, hread]
    rfl
  | depth text hdecode hread =>
    simp only [readTables, hdecode, hread]
    rfl

/-- A fault of the readers is never the report of a settings file. -/
theorem Overwhelms.ne_settings {octets : Text.Utf8.Octets} {fault : Fault}
    (h : Overwhelms octets fault) (source : String) (reason : SettingsReason) :
    fault ≠ .settings source reason := by
  cases h <;> exact Fault.noConfusion

theorem ofTables_reported (path : Path) (tables : Table) :
    IsReported path (ofTables path tables) := by
  unfold ofTables
  split
  · next values htables =>
    dsimp only
    generalize ofGiven _ = given
    cases given with
    | ok settings => exact Or.inl ⟨settings, rfl⟩
    | error mismatched => exact Or.inr ⟨.mismatched mismatched, rfl⟩
  · exact Or.inr ⟨.notATable, rfl⟩

/-- A settings file that can be read is loaded from its octets alone. -/
theorem load_of_readOctets {host : Host} {workspace : Path} {octets : Text.Utf8.Octets}
    (h : host.readOctets (filePath workspace) = .ok octets) :
    load host workspace =
      readTables (filePath workspace) octets >>= ofTables (filePath workspace) := by
  simp only [load, Host.exists?_of_readOctets h, h, bind, Except.bind, if_true]

/-- Text within the limits of reading overwhelms no reader. -/
theorem not_overwhelms_of_limits {octets : Text.Utf8.Octets} {text : List Char}
    (hdecode : Text.Utf8.decode octets = .ok text) (hdigits : digitCount text ≤ digitLimit)
    (hroom : openedRoom text ≤ nestingRoom) : ¬ ∃ fault, Overwhelms octets fault := by
  rintro ⟨fault, hover⟩
  cases hover with
  | undecodable cause hfails =>
    rw [hdecode] at hfails
    cases hfails
  | numeral found digits hfound hread =>
    obtain rfl : text = found := by
      rw [hdecode] at hfound
      cases hfound
      rfl
    have hcount := digitLimit_lt_of_read hread
    omega
  | depth found hfound hread =>
    obtain rfl : text = found := by
      rw [hdecode] at hfound
      cases hfound
      rfl
    have hopened := nestingRoom_lt_of_read hread
    omega

/-- A settings file that can be read gives settings or a report that names it, unless its octets are
too much for their readers: then their fault is what loading ends with. It is neither for text with
no more digits and no more containers than are read at once. -/
theorem load_reports_iff (host : Host) (workspace : Path) (octets : Text.Utf8.Octets)
    (hread : host.readOctets (filePath workspace) = .ok octets) :
    (IsReported (filePath workspace) (load host workspace) ↔
      ¬ ∃ fault, Overwhelms octets fault) ∧
    (∀ fault, Overwhelms octets fault → load host workspace = .error fault) ∧
    ∀ text, Text.Utf8.decode octets = .ok text → digitCount text ≤ digitLimit →
      openedRoom text ≤ nestingRoom →
        IsReported (filePath workspace) (load host workspace) := by
  have hover : ∀ fault, Overwhelms octets fault → load host workspace = .error fault := by
    intro fault hfault
    rw [load_of_readOctets hread, hfault.readTables_eq]
    rfl
  have hiff : IsReported (filePath workspace) (load host workspace) ↔
      ¬ ∃ fault, Overwhelms octets fault := by
    constructor
    · rintro (⟨settings, hload⟩ | ⟨reason, hload⟩) ⟨fault, hfault⟩
      · rw [hover fault hfault] at hload
        cases hload
      · rw [hover fault hfault] at hload
        exact hfault.ne_settings _ reason (Except.error.inj hload)
    · intro hcalm
      rw [load_of_readOctets hread]
      rcases readTables_cases (filePath workspace) octets with
        ⟨tables, htables⟩ | ⟨reason, hreason⟩ | ⟨fault, hfault, -⟩
      · rw [htables]
        exact ofTables_reported _ tables
      · rw [hreason]
        exact Or.inr ⟨reason, rfl⟩
      · exact absurd ⟨fault, hfault⟩ hcalm
  refine ⟨hiff, hover, ?_⟩
  intro text hdecode hdigits hroom
  exact hiff.2 (not_overwhelms_of_limits hdecode hdigits hroom)

/-- A workspace whose settings file holds these octets. -/
def configuredHost (octets : Text.Utf8.Octets) : Host where
  tree := ⟨[([".tidyhtml"], .directory),
    ([".tidyhtml", "config.toml"], .file ⟨octets, 0o600, none⟩)]⟩
  directory := []
  searchPath := ""

theorem readOctets_configured (octets : Text.Utf8.Octets) :
    (configuredHost octets).readOctets (filePath topDirectory) = .ok octets := by
  have hreach : (configuredHost octets).reach .target (filePath topDirectory).text
      [(filePath topDirectory).text] = .ok (.node [".tidyhtml", "config.toml"]
        (.file ⟨octets, 0o600, none⟩)) := by
    rw [reach_eq (configuredHost octets) rfl walks_file]
    simp [FileTree.walkFrom, FileTree.node?, Node.isDirectory, List.lookup_cons, configuredHost,
      isShort_directory, isShort_file, Except.mapError]
  have hreadable : File.isReadable ⟨octets, 0o600, none⟩ = true := by
    simp [File.isReadable, File.ownerBit]
  simp only [Host.readOctets, Host.stat, hreach, hreadable, if_true]

/-- An open bracket is a document that is not valid, and loading reports it. -/
theorem load_reports_bracket :
    (configuredHost [0x5B]).readOctets (filePath topDirectory) = .ok [0x5B] ∧
      IsReported (filePath topDirectory) (load (configuredHost [0x5B]) topDirectory) := by
  have hread := readOctets_configured [0x5B]
  have hdecode : Text.Utf8.decode [0x5B] = .ok ['['] := by
    simp [Text.Utf8.decode, Text.Utf8.decodeAfter, Text.Utf8.nextHead, Text.Utf8.announced]
  exact ⟨hread, (load_reports_iff _ topDirectory [0x5B] hread).2.2 ['['] hdecode
    (by decide) (by decide)⟩

/-- Octets that are no text end the loading with the fault of the decoder. -/
theorem undecodable_settings_escape :
    (configuredHost [0xff]).readOctets (filePath topDirectory) = .ok [0xff] ∧
      load (configuredHost [0xff]) topDirectory =
        .error (.undecodable ⟨0xff, 0, 1, .invalidStart⟩) ∧
      ¬ IsReported (filePath topDirectory) (load (configuredHost [0xff]) topDirectory) := by
  have hread := readOctets_configured [0xff]
  have hdecode : Text.Utf8.decode [0xff] = .error ⟨0xff, 0, 1, .invalidStart⟩ := by
    simp [Text.Utf8.decode, Text.Utf8.decodeAfter, Text.Utf8.nextHead, Text.Utf8.announced]
  have hload : load (configuredHost [0xff]) topDirectory =
      .error (.undecodable ⟨0xff, 0, 1, .invalidStart⟩) := by
    rw [load_of_readOctets hread, (Overwhelms.undecodable _ hdecode).readTables_eq]
    rfl
  refine ⟨hread, hload, ?_⟩
  rw [hload]
  rintro (⟨settings, hsettings⟩ | ⟨reason, hreason⟩)
  · cases hsettings
  · cases hreason

end MarkupTidy.Settings
