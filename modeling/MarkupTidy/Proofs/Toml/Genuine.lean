import MarkupTidy.Proofs.Toml.Calendar
import MarkupTidy.Pairs
import MarkupTidy.Value

/-!
Values as a program holds them. No table has an entry twice, and every date and time is one that
the calendar and the clock have.
-/
namespace MarkupTidy

mutual

/-- Tables have each key once, and dates and times exist, however deep they lie. -/
def Value.IsGenuine : Value → Prop
  | .list items => Value.AreGenuine items
  | .table entries => (entries.map Prod.fst).Nodup ∧ Value.HasGenuine entries
  | .date d => d.isValid = true
  | .time t => t.IsValid
  | .moment m => m.IsValid
  | _ => True

def Value.AreGenuine : List Value → Prop
  | [] => True
  | item :: rest => item.IsGenuine ∧ Value.AreGenuine rest

/-- The values of all entries are genuine. -/
def Value.HasGenuine : List (String × Value) → Prop
  | [] => True
  | (_, value) :: rest => value.IsGenuine ∧ Value.HasGenuine rest

end

namespace Value

theorem areGenuine_iff (items : List Value) : AreGenuine items ↔ ∀ v ∈ items, v.IsGenuine := by
  induction items with
  | nil => simp [AreGenuine]
  | cons item rest ih => simp [AreGenuine, ih]

theorem hasGenuine_iff (entries : List (String × Value)) :
    HasGenuine entries ↔ ∀ entry ∈ entries, entry.2.IsGenuine := by
  induction entries with
  | nil => simp [HasGenuine]
  | cons entry rest ih => simp [HasGenuine, ih]

/-- The table of these entries is genuine. -/
structure TableGenuine (entries : List (String × Value)) : Prop where
  keys : (entries.map Prod.fst).Nodup
  values : ∀ entry ∈ entries, entry.2.IsGenuine

theorem isGenuine_table (entries : List (String × Value)) :
    (Value.table entries).IsGenuine ↔ TableGenuine entries := by
  rw [IsGenuine, hasGenuine_iff]
  exact ⟨fun h => ⟨h.1, h.2⟩, fun h => ⟨h.keys, h.values⟩⟩

theorem isGenuine_list (items : List Value) :
    (Value.list items).IsGenuine ↔ ∀ v ∈ items, v.IsGenuine := by
  rw [IsGenuine, areGenuine_iff]

namespace TableGenuine

variable {table : List (String × Value)}

theorem nil : TableGenuine [] :=
  ⟨List.nodup_nil, fun _ hmem => by cases hmem⟩

variable {entry : String × Value}

theorem head (h : TableGenuine (entry :: table)) : entry.2.IsGenuine :=
  h.values entry List.mem_cons_self

theorem notMem_tail (h : TableGenuine (entry :: table)) : entry.1 ∉ table.map Prod.fst :=
  (List.nodup_cons.1 h.keys).1

theorem tail (h : TableGenuine (entry :: table)) : TableGenuine table := by
  refine ⟨(List.nodup_cons.1 h.keys).2, fun other hother => ?_⟩
  exact h.values other (List.mem_cons_of_mem entry hother)

theorem set (h : TableGenuine table) {value : Value} (hvalue : value.IsGenuine) (name : String) :
    TableGenuine (Pairs.set name value table) := by
  refine ⟨Pairs.nodup_set h.keys, fun entry hentry => ?_⟩
  rcases Pairs.mem_set hentry with hentry | rfl
  · exact h.values entry hentry
  · exact hvalue

theorem lookup (h : TableGenuine table) {name : String} {value : Value}
    (hlookup : table.lookup name = some value) : value.IsGenuine := by
  obtain ⟨before, behind, rfl, -⟩ := List.lookup_eq_some_iff.1 hlookup
  exact h.values (name, value) (by simp)

end TableGenuine

end Value

/-- A step that succeeds has a value, and what follows succeeds with it. -/
theorem step_eq_ok {ε α β : Type} {first : Except ε α} {next : α → Except ε β} {result : β}
    (h : first >>= next = .ok result) : ∃ value, first = .ok value ∧ next value = .ok result := by
  cases first with
  | error fault => cases h
  | ok value => exact ⟨value, rfl, h⟩

/-- Of two steps that fail, the first fails, or the second does after it. -/
theorem step_eq_error {ε α β : Type} {first : Except ε α} {next : α → Except ε β} {fault : ε}
    (h : first >>= next = .error fault) :
    first = .error fault ∨ ∃ value, first = .ok value ∧ next value = .error fault := by
  cases first with
  | error other =>
    cases h
    exact Or.inl rfl
  | ok value => exact Or.inr ⟨value, rfl, h⟩

end MarkupTidy
