import MarkupTidy.Proofs.Text.Trimmed

/-!
The lines of a text. A text is its first line, what ends that line, and the lines behind. Cutting it
loses nothing but line breaks, and these are white space; so the first thing that a text has besides
white space is the first thing that one of its lines has.
-/
namespace MarkupTidy.Text

/-- Trimming leaves nothing of white space, and something of every other text. -/
theorem trim_eq_nil_iff (s : List Char) : trim s = [] ↔ ∀ c ∈ s, isBlank c = true := by
  constructor
  · intro h c hc
    obtain ⟨front, behind, hsplit, hfront, hbehind⟩ := exists_trimBy_eq isBlank s
    have hnone : trimBy isBlank s = [] := h
    rw [hsplit, hnone, List.nil_append] at hc
    exact (List.mem_append.1 hc).elim (hfront c) (hbehind c)
  · intro h
    rw [trim, trimBy, dropEnd_eq_nil_iff]
    exact fun c hc => h c ((List.dropWhile_sublist isBlank).subset hc)

/-- A text is its first line, what ends this line, and what stands behind, if anything does. -/
theorem exists_first_line {s : List Char} (hne : s ≠ []) :
    ∃ line ending rest, s = line ++ (ending ++ rest) ∧ lines s = line :: lines rest ∧
      (∀ c ∈ line, isLineBreak c = false) ∧ (∀ c ∈ ending, isLineBreak c = true) ∧
      (ending = [] → rest = []) := by
  fun_induction lines s with
  | case1 => exact absurd rfl hne
  | case2 rest => exact ⟨[], ['\r', '\n'], rest, rfl, rfl, by simp, by simp [isLineBreak], by simp⟩
  | case3 first rest _ hfirst =>
    exact ⟨[], [first], rest, rfl, rfl, by simp, by simpa using hfirst, by simp⟩
  | case4 first rest _ hfirst hlines ih =>
    obtain rfl : rest = [] := by
      by_contra hrest
      obtain ⟨line, -, behind, -, hcut, -⟩ := ih hrest
      rw [hcut] at hlines
      cases hlines
    exact ⟨[first], [], [], rfl, rfl, by simpa using hfirst, by simp, fun _ => rfl⟩
  | case5 first rest _ hfirst head others hlines ih =>
    have hrest : rest ≠ [] := by
      rintro rfl
      cases hlines
    obtain ⟨line, ending, behind, rfl, hcut, hline, hending, hlast⟩ := ih hrest
    obtain ⟨rfl, rfl⟩ := List.cons.inj (hlines.symm.trans hcut)
    exact ⟨first :: head, ending, behind, rfl, rfl,
      List.forall_mem_cons.2 ⟨by simpa using hfirst, hline⟩, hending, hlast⟩

/-- What holds of the empty text, and of a text if it holds of what stands behind its first line,
holds of every text. -/
theorem line_induction {motive : List Char → Prop} (nil : motive [])
    (cons : ∀ line ending rest, lines (line ++ (ending ++ rest)) = line :: lines rest →
      (∀ c ∈ line, isLineBreak c = false) → (∀ c ∈ ending, isLineBreak c = true) →
      (ending = [] → rest = []) → motive rest → motive (line ++ (ending ++ rest)))
    (s : List Char) : motive s := by
  induction hlength : s.length using Nat.strongRecOn generalizing s with
  | ind length ih =>
    by_cases hne : s = []
    · exact hne ▸ nil
    · obtain ⟨line, ending, rest, rfl, hcut, hline, hending, hlast⟩ := exists_first_line hne
      refine cons line ending rest hcut hline hending hlast (ih rest.length ?_ rest rfl)
      rw [← hlength, List.length_append, List.length_append]
      rcases ending with - | ⟨first, others⟩
      · have hlong := List.length_pos_iff.2 hne
        rw [hlast rfl] at hlong ⊢
        simpa using hlong
      · rw [List.length_cons]
        omega

/-- White space, and then the end of the text or a line break. -/
def ReachesLineEnd (s : List Char) : Prop :=
  ∃ gap rest, s = gap ++ rest ∧ (∀ c ∈ gap, isBlank c = true) ∧
    ∀ c, rest.head? = some c → isLineBreak c = true

/-- Without the white space at its end, such a text is still one. -/
theorem ReachesLineEnd.dropEnd {s : List Char} (h : ReachesLineEnd s) :
    ReachesLineEnd (dropEnd isBlank s) := by
  obtain ⟨gap, rest, rfl, hgap, hbreak⟩ := h
  by_cases hrest : Text.dropEnd isBlank rest = []
  · have hblank := (dropEnd_eq_nil_iff rest).1 hrest
    refine ⟨[], [], (dropEnd_eq_nil_iff _).2 fun c hc => ?_, by simp, by simp⟩
    exact (List.mem_append.1 hc).elim (hgap c) (hblank c)
  · refine ⟨gap, _, dropEnd_append_of_ne_nil hrest gap, hgap, fun c hc => hbreak c ?_⟩
    have hprefix : Text.dropEnd isBlank rest <+: rest := List.rdropWhile_prefix isBlank rest
    obtain ⟨behind, hsplit⟩ := hprefix
    rw [← hsplit, List.head?_append, hc]
    rfl

/-- In the text this is the first run from something that is no white space to the last such thing
on its line. -/
structure IsFirstMessage (s message : List Char) : Prop where
  ne_nil : message ≠ []
  oneLine : ∀ c ∈ message, isLineBreak c = false
  first : Stops isBlank message
  last : Stops isBlank message.reverse
  place : ∃ front behind, s = front ++ (message ++ behind) ∧ (∀ c ∈ front, isBlank c = true) ∧
    ReachesLineEnd behind

/-- A line that is not blank gives the first message of a text that it begins. -/
theorem isFirstMessage_trim {line rest : List Char} (hne : trim line ≠ [])
    (hline : ∀ c ∈ line, isLineBreak c = false)
    (hrest : ∀ c, rest.head? = some c → isLineBreak c = true) :
    IsFirstMessage (line ++ rest) (trim line) := by
  obtain ⟨front, gap, hsplit, hfront, hgap⟩ := exists_trimBy_eq isBlank line
  refine ⟨hne, fun c hc => hline c ?_, stops_trimBy isBlank line, stops_reverse_trimBy isBlank line,
    front, gap ++ rest, ?_, hfront, gap, rest, rfl, hgap, hrest⟩
  · rw [hsplit]
    exact List.mem_append_right _ (List.mem_append_left _ hc)
  · conv_lhs => rw [hsplit]
    simp only [List.append_assoc]
    rfl

/-- White space in front of a text does not change its first message. -/
theorem IsFirstMessage.append {s message : List Char} (h : IsFirstMessage s message)
    {front : List Char} (hfront : ∀ c ∈ front, isBlank c = true) :
    IsFirstMessage (front ++ s) message := by
  obtain ⟨inner, behind, rfl, hinner, hreaches⟩ := h.place
  refine ⟨h.ne_nil, h.oneLine, h.first, h.last, front ++ inner, behind, by simp, fun c hc => ?_,
    hreaches⟩
  exact (List.mem_append.1 hc).elim (hfront c) (hinner c)

/-- The first message begins the trimmed text, and stands there at the head of a line. -/
theorem IsFirstMessage.trim {s message : List Char} (h : IsFirstMessage s message) :
    ∃ behind, trim s = message ++ behind ∧ ReachesLineEnd behind := by
  obtain ⟨front, behind, rfl, hfront, hreaches⟩ := h.place
  obtain ⟨first, others, rfl⟩ := List.exists_cons_of_ne_nil h.ne_nil
  have hkept : Stops isBlank (first :: others ++ behind) := stops_cons (h.first first rfl)
  refine ⟨dropEnd isBlank behind, ?_, hreaches.dropEnd⟩
  rw [Text.trim, trimBy, List.dropWhile_append_of_pos hfront, hkept.dropWhile_eq,
    dropEnd_append_of_stops h.last]

/-- The first of the trimmed lines that is not empty is the first message; there is none in white
space alone. -/
theorem find_visible_line (s : List Char) :
    match ((lines s).map trim).find? fun line => !line.isEmpty with
    | some message => IsFirstMessage s message
    | none => ∀ c ∈ s, isBlank c = true := by
  induction s using line_induction with
  | nil => simp [lines]
  | cons line ending rest hcut hline hending hlast ih =>
    rw [hcut, List.map_cons]
    by_cases hvisible : Text.trim line = []
    · have hfront : ∀ c ∈ line ++ ending, isBlank c = true := by
        intro c hc
        exact (List.mem_append.1 hc).elim ((trim_eq_nil_iff line).1 hvisible c)
          fun hc => isBlank_of_isLineBreak (hending c hc)
      rw [List.find?_cons_of_neg (by simp [hvisible]), ← List.append_assoc]
      split at ih
      · exact ih.append hfront
      · exact fun c hc => (List.mem_append.1 hc).elim (hfront c) (ih c)
    · rw [List.find?_cons_of_pos (by simpa using hvisible)]
      refine isFirstMessage_trim hvisible hline fun c hc => ?_
      rcases ending with - | ⟨first, others⟩
      · rw [hlast rfl] at hc
        cases hc
      · cases hc
        exact hending _ List.mem_cons_self

end MarkupTidy.Text
