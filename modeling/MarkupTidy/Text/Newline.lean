/-!
Reading a text file makes every line end a line feed: a carriage return, alone or before a
line feed, becomes one line feed. Text without carriage returns is left as it is.
-/
namespace MarkupTidy.Text

/-- Make every line end a line feed. -/
def normalizeNewlines : List Char → List Char
  | [] => []
  | '\r' :: '\n' :: rest => '\n' :: normalizeNewlines rest
  | c :: rest => (if c = '\r' then '\n' else c) :: normalizeNewlines rest

/-- Make every carriage return before a line feed vanish; lone ones stay. -/
def joinLineEnds : List Char → List Char
  | [] => []
  | '\r' :: '\n' :: rest => '\n' :: joinLineEnds rest
  | c :: rest => c :: joinLineEnds rest

theorem normalizeNewlines_of_no_return {s : List Char} (h : '\r' ∉ s) :
    normalizeNewlines s = s := by
  induction s with
  | nil => rfl
  | cons c rest ih =>
    have hc : c ≠ '\r' := fun e => h (e ▸ List.mem_cons_self ..)
    have hr : '\r' ∉ rest := fun m => h (List.mem_cons_of_mem _ m)
    rw [normalizeNewlines]
    · simp [hc, ih hr]
    · intro r e _
      exact hc e

theorem return_notMem_normalizeNewlines (s : List Char) : '\r' ∉ normalizeNewlines s := by
  fun_induction normalizeNewlines s with
  | case1 => simp
  | case2 rest ih => simp [ih]
  | case3 c rest _ ih =>
    rw [List.mem_cons, not_or]
    refine ⟨?_, ih⟩
    split
    · decide
    · next hc => exact fun heq => hc heq.symm

/-- A text is read as it was written exactly if it has no carriage return in it. -/
theorem normalizeNewlines_eq_self_iff (s : List Char) : normalizeNewlines s = s ↔ '\r' ∉ s :=
  ⟨fun h => h ▸ return_notMem_normalizeNewlines s, normalizeNewlines_of_no_return⟩

end MarkupTidy.Text
