import MarkupTidy.Toml.Writer
import Mathlib.Logic.Basic

/-!
What can be written. A document can be written exactly if each of its entries can, and a section
likewise; the entries of a table do not depend on each other for it.
-/
namespace MarkupTidy.Toml

/-- The writing comes to an end. -/
def Succeeds {α : Type} (writing : Writing α) : Prop := ∃ value, writing = .ok value

theorem succeeds_ok {α : Type} (value : α) : Succeeds (.ok value) := ⟨value, rfl⟩

theorem succeeds_bind {α β : Type} {first : Writing α} {next : α → Writing β} :
    Succeeds (first >>= next) ↔ ∃ value, first = .ok value ∧ Succeeds (next value) := by
  cases first with
  | error fault => exact ⟨nofun, nofun⟩
  | ok value => exact ⟨fun h => ⟨value, rfl, h⟩, fun ⟨_, hvalue, h⟩ => by cases hvalue; exact h⟩

/-- Two parts are written one after the other. -/
theorem succeeds_both {α β γ : Type} {first : Writing α} {second : Writing β} {join : α → β → γ} :
    Succeeds (first >>= fun a => second >>= fun b => .ok (join a b)) ↔
      Succeeds first ∧ Succeeds second := by
  simp only [succeeds_bind, succeeds_ok, and_true, exists_and_right]
  rfl

/-- The value can be written in its entry, unless it is left to the sections. -/
def WritablePlain (value : Value) : Prop :=
  ∃ b, isSectioned value = .ok b ∧ (b = false → Succeeds (writeValue 0 value))

/-- An entry can be written in the section of a name. -/
structure Writable (name : List Char) (entry : String × Value) : Prop where
  plain : WritablePlain entry.2
  below : Succeeds (writeSection (sectionName name entry.1) entry.2)

theorem succeeds_checkLists {entries : Table} (h : ∀ entry ∈ entries, WritablePlain entry.2) :
    Succeeds (checkLists entries) := by
  induction entries with
  | nil => exact succeeds_ok _
  | cons entry rest ih =>
    obtain ⟨b, hb, -⟩ := h entry List.mem_cons_self
    rw [checkLists, succeeds_bind]
    exact ⟨b, hb, ih fun entry hentry => h entry (List.mem_cons_of_mem _ hentry)⟩

theorem succeeds_writePlain (entries : Table) :
    Succeeds (writePlain entries) ↔ ∀ entry ∈ entries, WritablePlain entry.2 := by
  induction entries with
  | nil => exact ⟨nofun, fun _ => succeeds_ok _⟩
  | cons entry rest ih =>
    rw [List.forall_mem_cons, ← ih, writePlain, WritablePlain, succeeds_bind]
    cases isSectioned entry.2 with
    | error fault => simp
    | ok b =>
      cases b with
      | true => simp
      | false => simp [succeeds_both]

theorem succeeds_writeSections (name : List Char) (entries : Table) :
    Succeeds (writeSections name entries) ↔
      ∀ entry ∈ entries, Succeeds (writeSection (sectionName name entry.1) entry.2) := by
  induction entries with
  | nil => exact ⟨nofun, fun _ => by rw [writeSections]; exact succeeds_ok _⟩
  | cons entry rest ih => rw [List.forall_mem_cons, ← ih, writeSections, succeeds_both]

theorem forall_writable_iff (name : List Char) (entries : Table) :
    (∀ entry ∈ entries, Writable name entry) ↔
      Succeeds (writePlain entries) ∧ Succeeds (writeSections name entries) := by
  rw [succeeds_writePlain, succeeds_writeSections, ← forall₂_and]
  exact forall₂_congr fun entry _ => ⟨fun h => ⟨h.plain, h.below⟩, fun h => ⟨h.1, h.2⟩⟩

/-- The lines of a table and the sections below it are written if each of its entries can be. -/
theorem succeeds_table {α : Type} (name : List Char) (entries : Table)
    {join : List Char → List (List Char) → α} :
    Succeeds (checkLists entries >>= fun _ => writePlain entries >>= fun plain =>
        writeSections name entries >>= fun below => .ok (join plain below)) ↔
      ∀ entry ∈ entries, Writable name entry := by
  rw [forall_writable_iff, succeeds_bind]
  simp only [succeeds_both]
  refine ⟨fun ⟨_, _, h⟩ => h, fun h => ?_⟩
  obtain ⟨done, hdone⟩ := succeeds_checkLists ((succeeds_writePlain entries).1 h.1)
  exact ⟨done, hdone, h⟩

/-- A table can be written as a section exactly if each of its entries can be written in it. -/
theorem succeeds_section (name : List Char) (entries : Table) :
    Succeeds (writeSection name (.table entries)) ↔ ∀ entry ∈ entries, Writable name entry := by
  rw [writeSection]
  exact succeeds_table name entries

theorem sectionDepth_le_iff (entries : Table) (room : Nat) :
    sectionDepth entries ≤ room ↔ ∀ entry ∈ entries, entryDepth entry.2 ≤ room := by
  induction entries with
  | nil => simp [sectionDepth]
  | cons entry rest ih =>
    rw [sectionDepth, List.forall_mem_cons, ← ih]
    exact Nat.max_le

/-- A document can be written exactly if each of its entries can, and none is too deep. -/
theorem succeeds_write (root : Table) :
    Succeeds (write root) ↔
      ∀ entry ∈ root, entryDepth entry.2 ≤ nestingRoom ∧ Writable [] entry := by
  rw [write, forall₂_and, ← sectionDepth_le_iff]
  by_cases hdeep : nestingRoom < sectionDepth root
  · rw [if_pos hdeep]
    exact ⟨nofun, fun h => absurd h.1 (Nat.not_le.2 hdeep)⟩
  · rw [if_neg hdeep, and_iff_right (Nat.not_lt.1 hdeep)]
    exact succeeds_table [] root

end MarkupTidy.Toml
