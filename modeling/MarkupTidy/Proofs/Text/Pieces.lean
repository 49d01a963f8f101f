import MarkupTidy.Text.Blank

/-!
The pieces of a text and the words among them. A separator cuts what stands before it from what
stands behind it, so the words of a text that was joined from parts are the words of the parts.
-/
namespace MarkupTidy.Text

variable {p : Char → Bool}

/-- Every text is one without the character, or such a text, the character and a further text. -/
theorem cut_induction {c : Char} {motive : List Char → Prop}
    (whole : ∀ s, c ∉ s → motive s)
    (cut : ∀ front behind, c ∉ front → motive behind → motive (front ++ c :: behind))
    (s : List Char) : motive s := by
  induction hlength : s.length using Nat.strongRecOn generalizing s with
  | ind length ih =>
    by_cases hmem : c ∈ s
    · obtain ⟨front, behind, rfl, hfront⟩ := List.eq_append_cons_of_mem hmem
      refine cut front behind hfront (ih behind.length ?_ behind rfl)
      rw [← hlength, List.length_append, List.length_cons]
      omega
    · exact whole s hmem

theorem pieces_append {c : Char} (hc : p c = true) (s t : List Char) :
    pieces p (s ++ c :: t) = pieces p s ++ pieces p t := by
  induction s with
  | nil => simp [pieces, hc]
  | cons first rest ih =>
    simp only [List.cons_append, pieces, ih]
    split
    · rfl
    · cases hpieces : pieces p rest with
      | nil => exact absurd hpieces (pieces_ne_nil p rest)
      | cons piece others => rfl

theorem pieces_whole {s : List Char} (h : ∀ c ∈ s, p c = false) : pieces p s = [s] := by
  induction s with
  | nil => rfl
  | cons c rest ih =>
    simp only [pieces, h c List.mem_cons_self, ih fun c hc => h c (List.mem_cons_of_mem _ hc),
      Bool.false_eq_true, if_false]

theorem pieces_of_notMem {c : Char} {s : List Char} (h : c ∉ s) : pieces (· == c) s = [s] :=
  pieces_whole fun _ hd => beq_eq_false_iff_ne.2 fun heq => h (heq ▸ hd)

/-- A piece has characters of the text that are no separators. -/
theorem of_mem_pieces {s piece : List Char} (h : piece ∈ pieces p s) :
    ∀ c ∈ piece, c ∈ s ∧ p c = false := by
  induction s generalizing piece with
  | nil =>
    obtain rfl := List.mem_singleton.1 h
    exact fun c hc => (List.not_mem_nil hc).elim
  | cons first rest ih =>
    have hlater : ∀ {piece : List Char}, piece ∈ pieces p rest →
        ∀ c ∈ piece, c ∈ first :: rest ∧ p c = false := by
      intro piece hpiece c hc
      obtain ⟨hmem, hnot⟩ := ih hpiece c hc
      exact ⟨List.mem_cons_of_mem first hmem, hnot⟩
    rw [pieces] at h
    split at h
    · rcases List.mem_cons.1 h with rfl | hrest
      · exact fun c hc => (List.not_mem_nil hc).elim
      · exact hlater hrest
    · next hfirst =>
      cases hpieces : pieces p rest with
      | nil => exact absurd hpieces (pieces_ne_nil p rest)
      | cons head others =>
        rw [hpieces] at h hlater
        rcases List.mem_cons.1 h with rfl | hrest
        · intro c hc
          rcases List.mem_cons.1 hc with rfl | hhead
          · exact ⟨List.mem_cons_self, by simpa using hfirst⟩
          · exact hlater List.mem_cons_self c hhead
        · exact hlater (List.mem_cons_of_mem _ hrest)

theorem not_of_mem_pieces {s piece : List Char} (h : piece ∈ pieces p s) :
    ∀ c ∈ piece, p c = false := fun c hc => (of_mem_pieces h c hc).2

theorem words_append {c : Char} (hc : p c = true) (s t : List Char) :
    words p (s ++ c :: t) = words p s ++ words p t := by
  rw [words, pieces_append hc, List.filter_append]
  rfl

theorem words_whole {s : List Char} (hne : s ≠ []) (h : ∀ c ∈ s, p c = false) :
    words p s = [s] := by
  simp [words, pieces_whole h, hne]

theorem not_of_mem_words {s word : List Char} (h : word ∈ words p s) :
    ∀ c ∈ word, p c = false :=
  not_of_mem_pieces (List.mem_filter.1 h).1

/-- A part without separators is a word of the text that it was joined into. -/
theorem mem_words_intercalate {separator : Char} (hseparator : p separator = true)
    {parts : List (List Char)} {part : List Char} (hpart : part ∈ parts) (hne : part ≠ [])
    (h : ∀ c ∈ part, p c = false) : part ∈ words p (List.intercalate [separator] parts) := by
  induction parts with
  | nil => cases hpart
  | cons first rest ih =>
    cases rest with
    | nil =>
      obtain rfl := List.mem_singleton.1 hpart
      rw [List.intercalate_singleton, words_whole hne h]
      exact List.mem_singleton_self _
    | cons next more =>
      rw [List.intercalate_cons_cons, List.append_assoc, List.singleton_append,
        words_append hseparator]
      rcases List.mem_cons.1 hpart with rfl | hrest
      · rw [words_whole hne h]
        exact List.mem_append_left _ (List.mem_singleton_self _)
      · exact List.mem_append_right _ (ih hrest)

/-- Parts without separators are the words of the text that they were joined into. -/
theorem words_intercalate {separator : Char} (hseparator : p separator = true)
    {parts : List (List Char)} (h : ∀ part ∈ parts, part ≠ [] ∧ ∀ c ∈ part, p c = false) :
    words p (List.intercalate [separator] parts) = parts := by
  induction parts with
  | nil => rfl
  | cons first rest ih =>
    obtain ⟨⟨hne, hfirst⟩, hrest⟩ := List.forall_mem_cons.1 h
    cases rest with
    | nil => rw [List.intercalate_singleton, words_whole hne hfirst]
    | cons next more =>
      rw [List.intercalate_cons_cons, List.append_assoc, List.singleton_append,
        words_append hseparator, words_whole hne hfirst, ih hrest]
      rfl

end MarkupTidy.Text
