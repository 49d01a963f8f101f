import MarkupTidy.Proofs.Toml.Genuine
import MarkupTidy.Proofs.Toml.Writable

/-!
Why a document cannot be written. Unless it is too deep, the writing ends with the problem of one
of its entries; a section ends likewise, so a problem is found by going down the tables to the value
that has it.
-/
namespace MarkupTidy.Toml

/-- The problem ends the writing of an entry in the section of a name. -/
inductive Refuses (name : List Char) (entry : String × Value) (problem : Unwritable) : Prop
  | listed (h : isSectioned entry.2 = .error problem)
  | plain (hplain : isSectioned entry.2 = .ok false) (h : writeValue 0 entry.2 = .error problem)
  | below (h : writeSection (sectionName name entry.1) entry.2 = .error problem)

section Refuses

variable {name : List Char} {entry : String × Value} {problem : Unwritable} {entries : Table}

theorem Writable.not_refuses (h : Writable name entry) : ¬ Refuses name entry problem := by
  obtain ⟨⟨b, hsectioned, hplain⟩, text, hbelow⟩ := h
  intro hrefuses
  cases hrefuses with
  | listed hlisted =>
    rw [hlisted] at hsectioned
    cases hsectioned
  | plain hnot hvalue =>
    rw [hnot] at hsectioned
    cases hsectioned
    obtain ⟨text, htext⟩ := hplain rfl
    rw [hvalue] at htext
    cases htext
  | below hsection =>
    rw [hsection] at hbelow
    cases hbelow

theorem refuses_checkLists (h : checkLists entries = .error problem) :
    ∃ entry ∈ entries, Refuses name entry problem := by
  induction entries with
  | nil => cases h
  | cons entry rest ih =>
    rw [checkLists] at h
    rcases step_eq_error h with hfirst | ⟨_, _, hrest⟩
    · exact ⟨entry, List.mem_cons_self, .listed hfirst⟩
    · exact List.exists_mem_cons_of_exists (ih hrest)

theorem refuses_writePlain (h : writePlain entries = .error problem) :
    ∃ entry ∈ entries, Refuses name entry problem := by
  induction entries with
  | nil => cases h
  | cons entry rest ih =>
    rw [writePlain] at h
    rcases step_eq_error h with hfirst | ⟨b, hsectioned, hnext⟩
    · exact ⟨entry, List.mem_cons_self, .listed hfirst⟩
    · cases b with
      | true => exact List.exists_mem_cons_of_exists (ih hnext)
      | false =>
        rcases step_eq_error hnext with hvalue | ⟨text, -, hothers⟩
        · exact ⟨entry, List.mem_cons_self, .plain hsectioned hvalue⟩
        · rcases step_eq_error hothers with hrest | ⟨others, -, hdone⟩
          · exact List.exists_mem_cons_of_exists (ih hrest)
          · cases hdone

theorem refuses_writeSections (h : writeSections name entries = .error problem) :
    ∃ entry ∈ entries, Refuses name entry problem := by
  induction entries with
  | nil =>
    rw [writeSections] at h
    cases h
  | cons entry rest ih =>
    rw [writeSections] at h
    rcases step_eq_error h with hfirst | ⟨first, -, hothers⟩
    · exact ⟨entry, List.mem_cons_self, .below hfirst⟩
    · rcases step_eq_error hothers with hrest | ⟨others, -, hdone⟩
      · exact List.exists_mem_cons_of_exists (ih hrest)
      · cases hdone

/-- The lines of a table and the sections below it are refused for an entry. -/
theorem refuses_table {α : Type} {join : List Char → List (List Char) → α}
    (h : (checkLists entries >>= fun _ => writePlain entries >>= fun plain =>
      writeSections name entries >>= fun below => .ok (join plain below)) = .error problem) :
    ∃ entry ∈ entries, Refuses name entry problem := by
  rcases step_eq_error h with hlists | ⟨_, -, hlines⟩
  · exact refuses_checkLists hlists
  · rcases step_eq_error hlines with hplain | ⟨plain, -, hsections⟩
    · exact refuses_writePlain hplain
    · rcases step_eq_error hsections with hbelow | ⟨below, -, hdone⟩
      · exact refuses_writeSections hbelow
      · cases hdone

/-- An entry with a table is refused for an entry of this. -/
theorem Refuses.within {key : String} (h : Refuses name (key, .table entries) problem) :
    ∃ entry ∈ entries, Refuses (sectionName name key) entry problem := by
  cases h with
  | listed h => cases h
  | plain h => cases h
  | below h =>
    rw [writeSection] at h
    exact refuses_table h

/-- A document that is not too deep is refused for an entry. -/
theorem refuses_write {root : Table} (hdepth : ∀ entry ∈ root, entryDepth entry.2 ≤ nestingRoom)
    (h : write root = .error problem) : ∃ entry ∈ root, Refuses [] entry problem := by
  rw [write, if_neg (Nat.not_lt.2 ((sectionDepth_le_iff root nestingRoom).2 hdepth))] at h
  exact refuses_table h

end Refuses

end MarkupTidy.Toml
