import MarkupTidy.Proofs.Toml.Inline
import MarkupTidy.Proofs.Toml.Marks

/-!
Statements of a written document, one to a line. What reading a text makes of a document does not
depend on what comes behind it, so texts are read one after another, and empty lines between them
change nothing.
-/
namespace MarkupTidy.Toml

/-- Reading statements passes a text and turns one document into another. -/
def Passes (text : List Char) (before after : Document) : Prop :=
  ∀ (rest : List Char) (fuel : Nat), (text ++ rest).length < fuel →
    ∃ fuel', rest.length < fuel' ∧
      readStatements fuel before (text ++ rest) = readStatements fuel' after rest

theorem Passes.nil (d : Document) : Passes [] d d :=
  fun _ fuel hfuel => ⟨fuel, hfuel, rfl⟩

theorem Passes.append {first second : List Char} {d₁ d₂ d₃ : Document} (h : Passes first d₁ d₂)
    (h' : Passes second d₂ d₃) : Passes (first ++ second) d₁ d₃ := by
  intro rest fuel hfuel
  rw [List.append_assoc] at hfuel ⊢
  obtain ⟨middle, hmiddle, heq⟩ := h (second ++ rest) fuel hfuel
  obtain ⟨final, hfinal, heq'⟩ := h' rest middle hmiddle
  exact ⟨final, hfinal, heq.trans heq'⟩

theorem Passes.emptyLine (d : Document) : Passes ['\n'] d d := by
  intro rest fuel hfuel
  obtain ⟨fuel, rfl⟩ : ∃ n, fuel = n + 1 := ⟨fuel - 1, by omega⟩
  simp only [List.singleton_append, List.length_cons] at hfuel
  refine ⟨fuel, by omega, ?_⟩
  simp only [List.singleton_append, readStatements, skipSpace_of_head (c := '\n') rfl]

/-- A statement that begins its line and reaches to the end of it. -/
theorem Passes.statement {line : List Char} {d d' : Document}
    (hhead : ∃ c more, line = c :: more ∧ isSpace c = false ∧ c ≠ '\n')
    (hread : ∀ rest, readStatement d (line ++ '\n' :: rest) = .ok (d', '\n' :: rest)) :
    Passes (line ++ ['\n']) d d' := by
  obtain ⟨c, more, rfl, hspace, hnewline⟩ := hhead
  intro rest fuel hfuel
  have hjoin : c :: more ++ ['\n'] ++ rest = c :: (more ++ '\n' :: rest) := by simp
  obtain ⟨fuel, rfl⟩ : ∃ n, fuel = n + 1 := ⟨fuel - 1, by omega⟩
  rw [hjoin] at hfuel ⊢
  simp only [List.length_cons, List.length_append] at hfuel
  refine ⟨fuel, by omega, ?_⟩
  have hstatement : readStatement d (c :: (more ++ '\n' :: rest)) = .ok (d', '\n' :: rest) :=
    hread rest
  have hcomment : skipComment ('\n' :: rest) = .ok ('\n' :: rest) := rfl
  rw [readStatements, skipSpace_of_head hspace]
  split
  · next heq => cases heq
  · next heq => exact absurd (List.cons.inj heq).1 hnewline
  · simp only [hstatement, hcomment, bind, Except.bind]

/-- What begins with a key begins an entry. -/
theorem keyHead_isKeyStart {c : Char} (h : isBareKeyChar c = true ∨ c = '"') :
    isKeyStart c = true ∧ isSpace c = false ∧ c ≠ '\n' ∧ c ≠ '[' := by
  refine ⟨?_, isSpace_keyHead h, ?_, ?_⟩
  · rcases h with h | rfl
    · simp [isKeyStart, h]
    · rfl
  · rintro rfl
    revert h
    decide
  · rintro rfl
    revert h
    decide

/-- A line with an entry adds it to the document. -/
theorem Passes.entry {key : String} {value : Value} {text : List Char}
    (hwrite : writeValue 0 value = .ok text) (hgenuine : value.IsGenuine)
    (hdepth : inlineDepth value ≤ nestingRoom) {d d' : Document}
    (hadd : d.addValue [key] value = .ok d') : Passes (writeEntry key text ++ ['\n']) d d' := by
  obtain ⟨c, more, heq, hhead⟩ := head_writeKeyPart key.toList (' ' :: '=' :: ' ' :: text)
  obtain ⟨hstart, hspace, hnewline, hbracket⟩ := keyHead_isKeyStart hhead
  refine Passes.statement ⟨c, more, heq, hspace, hnewline⟩ fun rest => ?_
  have hfuel : fuelFor (writeEntry key text ++ '\n' :: rest) =
      3 * (writeEntry key text ++ '\n' :: rest).length + 2 + 1 := rfl
  have hlength := length_writeEntry key text
  have hvalue := readsBack (3 * (writeEntry key text ++ '\n' :: rest).length + 2) nestingRoom 0
    value text ('\n' :: rest) hwrite hgenuine (by rw [List.length_append]; omega) hdepth (.line rest)
  have hentry := readEntry_writeEntry key (head_writeValue hwrite) hvalue
  rw [← hfuel] at hentry
  have hcons : writeEntry key text ++ '\n' :: rest = c :: (more ++ '\n' :: rest) := by
    rw [writeEntry, heq, List.cons_append]
  rw [hcons] at hentry ⊢
  unfold readStatement
  split
  · next hnil => cases hnil
  · next hlist => exact absurd (List.cons.inj hlist).1 hbracket
  · next htable => exact absurd (List.cons.inj htable).1 hbracket
  · next hkey =>
    obtain ⟨rfl, rfl⟩ := List.cons.inj hkey
    simp only [hstart, if_true, hentry, refuseWith, hadd, bind, Except.bind, Except.mapError,
      skipSpace_of_head (c := '\n') rfl]

theorem closeSection_of_settled {d : Document} (h : d.pending = []) : d.closeSection = d := by
  cases d
  subst h
  rfl

/-- A key within brackets is read up to them. -/
theorem readKey_header {key : Key} (hne : key ≠ []) (rest : List Char) :
    readKey (skipSpace (keyText key ++ ']' :: rest)) = .ok (key, ']' :: rest) := by
  cases key with
  | nil => exact absurd rfl hne
  | cons part parts =>
    obtain ⟨c, more, heq, hhead⟩ := head_keyText part parts (']' :: rest)
    have hskip : skipSpace (']' :: rest) = ']' :: rest := rfl
    have hstop : StopsKey (']' :: rest) := fun c hc => by cases hc; decide
    have hread := readKey_keyText hne hstop (by rw [hskip]; simp)
    rw [heq, skipSpace_of_head (isSpace_keyHead hhead), ← heq, hread, hskip]

/-- A header in single brackets opens its table. -/
theorem Passes.tableHeader {key : Key} (hne : key ≠ []) {d d' : Document} (hpending : d.pending = [])
    (hopen : d.openTable key = .ok d') : Passes ('[' :: keyText key ++ [']', '\n']) d d' := by
  have hline : '[' :: keyText key ++ [']', '\n'] = ('[' :: keyText key ++ [']']) ++ ['\n'] := by simp
  rw [hline]
  refine Passes.statement ⟨'[', keyText key ++ [']'], rfl, rfl, by decide⟩ fun rest => ?_
  have hjoin : '[' :: keyText key ++ [']'] ++ '\n' :: rest =
      '[' :: (keyText key ++ ']' :: '\n' :: rest) := by simp
  have hread : readTableHeader (keyText key ++ ']' :: '\n' :: rest) d = .ok (d', '\n' :: rest) := by
    simp only [readTableHeader, readKey_header hne, hopen, refuseWith, bind, Except.bind,
      Except.mapError]
  rw [hjoin]
  unfold readStatement
  split
  · next hnil => cases hnil
  · next hlist =>
    obtain ⟨part, parts, rfl⟩ := List.exists_cons_of_ne_nil hne
    obtain ⟨c, more, heq, hhead⟩ := head_keyText part parts (']' :: '\n' :: rest)
    rw [heq] at hlist
    exact absurd (List.cons.inj (List.cons.inj hlist).2).1 (keyHead_isKeyStart hhead).2.2.2
  · next htable =>
    obtain ⟨-, rfl⟩ := List.cons.inj htable
    simp only [closeSection_of_settled hpending, hread, bind, Except.bind,
      skipSpace_of_head (c := '\n') rfl]
  · next hother htable =>
    obtain ⟨rfl, rfl⟩ := List.cons.inj htable
    exact absurd rfl hother

/-- A header in double brackets opens a further table of its list. -/
theorem Passes.listHeader {key : Key} (hne : key ≠ []) {d d' : Document} (hpending : d.pending = [])
    (hopen : d.openListItem key = .ok d') :
    Passes ('[' :: '[' :: keyText key ++ [']', ']', '\n']) d d' := by
  have hline : '[' :: '[' :: keyText key ++ [']', ']', '\n'] =
      ('[' :: '[' :: keyText key ++ [']', ']']) ++ ['\n'] := by simp
  rw [hline]
  refine Passes.statement ⟨'[', '[' :: keyText key ++ [']', ']'], rfl, rfl, by decide⟩ fun rest => ?_
  have hjoin : '[' :: '[' :: keyText key ++ [']', ']'] ++ '\n' :: rest =
      '[' :: '[' :: (keyText key ++ ']' :: ']' :: '\n' :: rest) := by simp
  have hread : readListHeader (keyText key ++ ']' :: ']' :: '\n' :: rest) d =
      .ok (d', '\n' :: rest) := by
    simp only [readListHeader, readKey_header hne, hopen, refuseWith, bind, Except.bind,
      Except.mapError]
  rw [hjoin]
  simp only [readStatement, closeSection_of_settled hpending, hread, bind, Except.bind,
    skipSpace_of_head (c := '\n') rfl]

end MarkupTidy.Toml
