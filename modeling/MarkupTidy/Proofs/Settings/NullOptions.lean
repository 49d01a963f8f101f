import MarkupTidy.Proofs.Settings.Loaded
import MarkupTidy.Proofs.Toml.Refused

/-!
Options without a value, saved. Arguments leave such an option out, and saving leaves out a setting
without a value; but the options are one setting, and what has no value in them is handed to the
writer, which refuses it. So settings come back from where they were saved exactly if each option
has a value, and otherwise nothing is saved.
-/
namespace MarkupTidy.Settings

open Toml

/-- A value that an option has when it is set, or none. -/
def IsPlainOrNull (value : Value) : Prop := value.isNull = true ∨ IsPlain value = true

theorem eq_null {value : Value} (h : value.isNull = true) : value = .null := by
  cases value <;> first | rfl | cases h

theorem entryDepth_plainOrNull {value : Value} (h : IsPlainOrNull value) :
    entryDepth value = 0 := by
  rcases h with hnull | hplain
  · rw [eq_null hnull]
    rfl
  · exact entryDepth_plain hplain

theorem not_writable_null (name : List Char) (key : String) :
    ¬ Writable name (key, .null) := by
  intro h
  obtain ⟨b, hsectioned, hplain⟩ := h.plain
  cases hsectioned
  obtain ⟨text, htext⟩ := hplain rfl
  cases htext

/-- A value that is refused is no value, or has too many digits. -/
theorem refuses_plainOrNull {name : List Char} {entry : String × Value} {problem : Unwritable}
    (hvalue : IsPlainOrNull entry.2) (hdigits : ∀ i, entry.2 = .int i → integerText? i ≠ none)
    (h : Refuses name entry problem) : problem = .null := by
  rcases hvalue with hnull | hplain
  · obtain ⟨key, value⟩ := entry
    obtain rfl := eq_null hnull
    cases h with
    | listed h => cases h
    | plain _ h =>
      cases h
      rfl
    | below h => cases h
  · exact absurd h ((writable_plain hplain).2 hdigits).not_refuses

section Saved

variable {settings : Settings}

/-- The table of the settings is refused for an option without a value. -/
theorem refuses_toTable {name : List Char} {entry : String × Value} {problem : Unwritable}
    (hvalues : ∀ option ∈ settings.options.entries, IsPlainOrNull option.2)
    (hdigits : ¬ settings.HasLongInteger) (hentry : entry ∈ settings.toTable)
    (h : Refuses name entry problem) : problem = .null := by
  rcases mem_toTable hentry with hsetting | rfl
  · obtain ⟨hplain, hint⟩ := plainSettings_values settings entry hsetting
    exact absurd h ((writable_plain hplain).2 fun i hi => absurd hi (hint i)).not_refuses
  · obtain ⟨option, hoption, hrefuses⟩ := h.within
    exact refuses_plainOrNull (hvalues option hoption)
      (fun i hi hlong => hdigits ⟨option, hoption, i, hi, hlong⟩) hrefuses

/-- With an option without a value there is nothing to put into a settings file. -/
theorem fileOctets_null {existing : Table} (hexisting : Value.TableGenuine existing)
    (hvalues : ∀ option ∈ settings.options.entries, IsPlainOrNull option.2)
    (hdigits : ¬ settings.HasLongInteger)
    (hothers : Succeeds (Toml.write (otherThanSettings existing)))
    (hnull : ∃ option ∈ settings.options.entries, option.2.isNull = true) :
    fileOctets existing settings = .error (.notStorable Value.null.kind) := by
  rw [succeeds_write] at hothers
  unfold fileOctets
  cases hwrite : Toml.write (Pairs.set tableName (.table settings.toTable) existing) with
  | ok text =>
    obtain ⟨⟨key, value⟩, hoption, hvalue⟩ := hnull
    obtain rfl := eq_null hvalue
    have hself := Pairs.mem_set_self tableName (Value.table settings.toTable) existing
    have htable := ((succeeds_write _).1 ⟨text, hwrite⟩ _ hself).2
    exact absurd (writable_option htable hoption) (not_writable_null _ key)
  | error problem =>
    have hdepth : ∀ entry ∈ Pairs.set tableName (.table settings.toTable) existing,
        entryDepth entry.2 ≤ nestingRoom := by
      intro entry hentry
      rcases mem_fileTables hexisting hentry with rfl | hother
      · have hroom := sectionDepth_toTable fun option hoption =>
          entryDepth_plainOrNull (hvalues option hoption)
        rw [entryDepth, nestingRoom]
        omega
      · exact (hothers entry hother).1
    obtain ⟨entry, hentry, hrefuses⟩ := refuses_write hdepth hwrite
    rcases mem_fileTables hexisting hentry with rfl | hother
    · obtain ⟨setting, hsetting, hrefuses⟩ := hrefuses.within
      rw [refuses_toTable hvalues hdigits hsetting hrefuses]
      rfl
    · exact absurd hrefuses (hothers entry hother).2.not_refuses

variable {host : Host} {workspace : Path} {existing : Table}

/-- Settings whose options have values are saved, and come back from where they were saved. -/
theorem saved_of_plain (hexisting : existingTables host (filePath workspace) = .ok existing)
    (hplain : ∀ option ∈ settings.options.entries, IsPlain option.2 = true)
    (hdigits : ¬ settings.HasLongInteger)
    (hothers : Succeeds (Toml.write (otherThanSettings existing)))
    (hreplace : ∀ octets, (host.replaceFile (filePath workspace) octets).1 = .ok ⟨⟩) :
    ∃ host', save host workspace settings = (.ok (filePath workspace), host') ∧
      (¬ (host.makeDirectories (filePath workspace).parent).2.LeadsThroughItself
          (filePath workspace) → load host' workspace = .ok settings.reloaded) := by
  have hgenuine := existingTables_genuine hexisting
  have hwrites := (succeeds_write_settings hgenuine hplain).2 ⟨hdigits, hothers⟩
  rcases fileOctets_cases existing settings with ⟨octets, hoctets, -⟩ | ⟨-, hnot⟩
  · have hdone : host.replaceFile (filePath workspace) octets =
        (.ok ⟨⟩, (host.replaceFile (filePath workspace) octets).2) :=
      Prod.ext (hreplace octets) rfl
    refine ⟨(host.replaceFile (filePath workspace) octets).2, ?_,
      load_written hgenuine hplain hoctets hdone⟩
    rw [save_of_octets hexisting hoctets, hreplace octets]
    rfl
  · exact absurd hwrites hnot

/-- Where the settings file can be written again, settings are saved exactly if each of their options
has a value. Loading them gives the options back, unless the way to the file leads through a link in
its own place. If an option has no value, saving is refused, and nothing is changed. -/
theorem null_options_are_refused
    (hexisting : existingTables host (filePath workspace) = .ok existing)
    (hvalues : ∀ option ∈ settings.options.entries, IsPlainOrNull option.2)
    (hdigits : ¬ settings.HasLongInteger)
    (hothers : Succeeds (Toml.write (otherThanSettings existing)))
    (hreplace : ∀ octets, (host.replaceFile (filePath workspace) octets).1 = .ok ⟨⟩) :
    if settings.options.entries.any fun option => option.2.isNull then
      save host workspace settings = (.error (.notStorable Value.null.kind), host)
    else
      ∃ host', save host workspace settings = (.ok (filePath workspace), host') ∧
        (¬ (host.makeDirectories (filePath workspace).parent).2.LeadsThroughItself
            (filePath workspace) → load host' workspace = .ok settings.reloaded) := by
  split
  · next hnull =>
    exact save_of_unwritten hexisting (fileOctets_null (existingTables_genuine hexisting) hvalues
      hdigits hothers (List.any_eq_true.1 hnull))
  · next hset =>
    refine saved_of_plain hexisting (fun option hoption => ?_) hdigits hothers hreplace
    refine (hvalues option hoption).resolve_left fun hnull => hset ?_
    exact List.any_eq_true.2 ⟨option, hoption, hnull⟩

end Saved

/-- Settings with an option that has no value, beside one that has. -/
def withNull : Settings where
  options := .ofPairs [("indent", .text "auto"), ("wrap", .null)]

theorem entries_withNull :
    withNull.options.entries = [("indent", .text "auto"), ("wrap", .null)] := rfl

theorem plainOrNull_withNull :
    ∀ option ∈ withNull.options.entries, IsPlainOrNull option.2 := by
  intro option hoption
  simp only [entries_withNull, List.mem_cons, List.not_mem_nil, or_false] at hoption
  rcases hoption with rfl | rfl
  · exact Or.inr rfl
  · exact Or.inl rfl

theorem not_hasLongInteger_withNull : ¬ withNull.HasLongInteger := by
  rintro ⟨option, hoption, i, hi, -⟩
  simp only [entries_withNull, List.mem_cons, List.not_mem_nil, or_false] at hoption
  rcases hoption with rfl | rfl <;> cases hi

/-- Beside another table, settings with every kind of value come back, and settings with an option
that has none are refused. -/
theorem null_options_are_refused_shared :
    existingTables sharedHost (filePath topDirectory) = .ok otherTables ∧
    (∀ option ∈ withNull.options.entries, IsPlainOrNull option.2) ∧
    ¬ withNull.HasLongInteger ∧
    Succeeds (Toml.write (otherThanSettings otherTables)) ∧
    (∀ octets, (sharedHost.replaceFile (filePath topDirectory) octets).1 = .ok ⟨⟩) ∧
    save sharedHost topDirectory withNull =
      (.error (.notStorable Value.null.kind), sharedHost) ∧
    ∃ host', save sharedHost topDirectory mixed = (.ok (filePath topDirectory), host') ∧
      load host' topDirectory = .ok mixed := by
  refine ⟨existing_shared, plainOrNull_withNull, not_hasLongInteger_withNull, othersSucceed_shared,
    replace_shared,
    null_options_are_refused existing_shared plainOrNull_withNull not_hasLongInteger_withNull
      othersSucceed_shared replace_shared, ?_⟩
  obtain ⟨host', hsaved, hloads⟩ : ∃ host', save sharedHost topDirectory mixed =
      (.ok (filePath topDirectory), host') ∧ (_ → load host' topDirectory = .ok mixed) :=
    null_options_are_refused existing_shared
      (fun option hoption => Or.inr (plain_mixed option hoption)) not_hasLongInteger_mixed
      othersSucceed_shared replace_shared
  exact ⟨host', hsaved, hloads way_shared⟩

/-- An option without a value is not left out: the settings are not saved. -/
theorem null_option_not_left_out :
    (save sharedHost topDirectory { options := .ofPairs [("a", .null)] }).1 =
        .error (.notStorable "NoneType") ∧
      (Fault.notStorable "NoneType").message =
        "Object of type 'NoneType' is not TOML serializable" := by
  refine ⟨?_, by decide⟩
  have hvalues : ∀ option ∈ OptionMap.entries (.ofPairs [("a", .null)]),
      IsPlainOrNull option.2 := fun option hoption => Or.inl (by
    rw [List.mem_singleton.1 hoption]
    rfl)
  have hdigits : ¬ HasLongInteger { options := .ofPairs [("a", .null)] } := by
    rintro ⟨option, hoption, i, hi, -⟩
    rw [List.mem_singleton.1 hoption] at hi
    cases hi
  rw [save_of_unwritten existing_shared (fileOctets_null genuine_otherTables hvalues hdigits
    othersSucceed_shared ⟨("a", .null), List.mem_singleton_self _, rfl⟩)]
  rfl

end MarkupTidy.Settings
