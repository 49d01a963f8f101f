import MarkupTidy.Proofs.Toml.Layout
import Mathlib.Data.List.Forall2

/-!
Values that are the same for whoever looks entries up by their keys. The order of a table's entries
is all that may differ, however deep the table lies, and that is all that arranging changes.
-/
namespace MarkupTidy

/-- The same value up to the order of entries in tables. -/
inductive Value.Same : Value → Value → Prop
  | refl (v : Value) : Same v v
  | list {items items' : List Value} (h : List.Forall₂ Same items items') :
      Same (.list items) (.list items')
  | table {entries entries' : List (String × Value)}
      (h : ∀ name, Option.Rel Same (entries.lookup name) (entries'.lookup name)) :
      Same (.table entries) (.table entries')

namespace Toml

open Value

/-- Of an entry with another name nothing is seen. -/
theorem lookup_arrangeTable_ne {key name : String} (hne : name ≠ key) (value : Value)
    (rest : Table) :
    (arrangeTable ((key, value) :: rest)).lookup name = (arrangeTable rest).lookup name := by
  have hbeq : (name == key) = false := beq_eq_false_iff_ne.2 hne
  simp only [arrangeTable, plainEntries, arrangeSections, List.filter_cons, List.lookup_append]
  cases sectioned value <;> simp [List.lookup_cons, hbeq]

theorem lookup_plainEntries_none {key : String} {entries : Table}
    (h : key ∉ entries.map Prod.fst) : (plainEntries entries).lookup key = none := by
  rw [Pairs.lookup_eq_none]
  intro hmem
  obtain ⟨value, hentry, -⟩ := mem_plainEntries hmem
  exact h (List.mem_map_of_mem hentry)

theorem lookup_arrangeTable_self {key : String} (value : Value) {rest : Table}
    (hnew : key ∉ rest.map Prod.fst) :
    (arrangeTable ((key, value) :: rest)).lookup key =
      some (if sectioned value then arrange value else value) := by
  have hplain := lookup_plainEntries_none hnew
  unfold plainEntries at hplain
  simp only [arrangeTable, plainEntries, arrangeSections, List.filter_cons, List.lookup_append]
  cases sectioned value
  · simp
  · simp [hplain]

mutual

theorem same_arrange : ∀ value : Value, value.IsGenuine → Same value (arrange value)
  | .list items, h => by
    rw [arrange]
    exact .list (same_arrangeItems items h)
  | .table entries, h => by
    rw [arrange]
    exact .table (same_arrangeTable entries ((isGenuine_table entries).1 h))
  | .null, _ | .bool _, _ | .int _, _ | .float _, _ | .text _, _ | .date _, _ | .time _, _
  | .moment _, _ => .refl _

theorem same_arrangeItems : ∀ items : List Value, AreGenuine items →
    List.Forall₂ Same items (arrangeItems items)
  | [], _ => .nil
  | item :: rest, h => .cons (same_arrange item h.1) (same_arrangeItems rest h.2)

/-- Arranging a table keeps what it has under every name. -/
theorem same_arrangeTable : ∀ entries : List (String × Value), TableGenuine entries →
    ∀ name, Option.Rel Same (entries.lookup name) ((arrangeTable entries).lookup name)
  | [], _, name => .none
  | (key, value) :: rest, h, name => by
    by_cases heq : name = key
    · subst heq
      rw [lookup_arrangeTable_self value h.notMem_tail, List.lookup_cons_self]
      refine .some ?_
      split
      · exact same_arrange value h.head
      · exact .refl value
    · rw [lookup_arrangeTable_ne heq, List.lookup_cons, beq_eq_false_iff_ne.2 heq]
      exact same_arrangeTable rest h.tail name

end

end Toml

end MarkupTidy
