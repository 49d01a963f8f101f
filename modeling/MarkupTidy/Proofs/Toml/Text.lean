import MarkupTidy.Proofs.Toml.Number
import MarkupTidy.Toml.Writer

/-!
Reading strings and keys back. Every character of a string is written as itself or as an escape
that stands for it, and a key is written in quotes unless each of its characters may stand alone.
-/
namespace MarkupTidy.Toml

theorem hexValue?_digitChar {n : Nat} (h : n < 16) : hexValue? (Nat.digitChar n) = some n := by
  revert n
  decide

theorem foldl_hexDigits (width n start : Nat) :
    (Text.Quoted.hexDigits width n).foldl (fun n c => 16 * n + (hexValue? c).getD 0) start =
      16 ^ width * start + n % 16 ^ width := by
  induction width generalizing start with
  | zero => simp [Text.Quoted.hexDigits, Nat.mod_one]
  | succ width ih =>
    have hdigit := hexValue?_digitChar (Nat.mod_lt (n / 16 ^ width) (by omega : 0 < 16))
    simp only [Text.Quoted.hexDigits, List.foldl_cons, Nat.pow_eq, hdigit, Option.getD_some, ih]
    rw [Nat.mod_pow_succ, Nat.pow_succ]
    ring

theorem digitsIn_hexDigits (width n : Nat) :
    digitsIn 16 (Text.Quoted.hexDigits width n) = n % 16 ^ width := by
  rw [digitsIn, foldl_hexDigits]
  simp

theorem isHexDigit_hexDigits (width n : Nat) :
    (Text.Quoted.hexDigits width n).all isHexDigit = true := by
  induction width with
  | zero => rfl
  | succ width ih =>
    have hdigit := hexValue?_digitChar (Nat.mod_lt (n / 16 ^ width) (by omega : 0 < 16))
    simp [Text.Quoted.hexDigits, isHexDigit, hdigit, ih, Nat.pow_eq]

theorem isControl_lt {c : Char} (h : isControl c = true) : c.toNat < 0x80 := by
  simp only [isControl, Bool.or_eq_true, Bool.and_eq_true, decide_eq_true_eq, beq_iff_eq] at h
  omega

/-- The code of a control character is read back. -/
theorem hexEscape_control {c : Char} (h : isControl c = true) (rest : List Char) :
    hexEscape 4 (Text.Quoted.hexDigits 4 c.toNat ++ rest) = .ok c := by
  have hlt := isControl_lt h
  have htake : (Text.Quoted.hexDigits 4 c.toNat ++ rest).take 4 =
      Text.Quoted.hexDigits 4 c.toNat := by
    rw [List.take_append_of_le_length (by rw [Text.Quoted.length_hexDigits])]
    exact List.take_of_length_le (by rw [Text.Quoted.length_hexDigits])
  have hmod : c.toNat % 16 ^ 4 = c.toNat := Nat.mod_eq_of_lt (by omega)
  have hvalid : c.toNat.isValidChar := c.valid
  unfold hexEscape
  simp only [htake, Text.Quoted.length_hexDigits, isHexDigit_hexDigits, and_self, if_true,
    digitsIn_hexDigits, hmod, hvalid, Char.ofNat_toNat]

theorem readBasic_quote (done rest : List Char) :
    readBasic false done ('"' :: rest) = .ok (done.reverse, rest) := by
  unfold readBasic
  split
  · next heq => cases heq
  · next heq =>
    simp only [List.cons.injEq, true_and] at heq
    rw [heq]
    rfl
  · next heq =>
    simp only [List.cons.injEq, true_and] at heq
    rw [heq]
    rfl
  · next heq =>
    simp only [List.cons.injEq] at heq
    exact absurd heq.1 (by decide)
  · next hquote _ heq =>
    simp only [List.cons.injEq] at heq
    exact absurd heq.1.symm hquote

theorem readBasic_escape {done s rest : List Char} {c : Char} {width : Nat}
    (h : escape false s = .ok ([c], width)) (hdrop : s.drop width = rest) :
    readBasic false done ('\\' :: s) = readBasic false (c :: done) rest := by
  rw [readBasic, h]
  show readBasic false ([c].reverse ++ done) (s.drop width) = _
  rw [hdrop]
  rfl

theorem readBasic_plain {done rest : List Char} {c : Char} (hquote : c ≠ '"') (hslash : c ≠ '\\')
    (hcontrol : isControl c = false) :
    readBasic false done (c :: rest) = readBasic false (c :: done) rest := by
  rw [readBasic]
  · simp [hcontrol]
  · exact fun _ heq _ => hquote heq
  · exact fun heq => hquote heq
  · exact fun heq => hslash heq

/-- An escaped character is read back as itself. -/
theorem escape_simple {c plain : Char} (h : simpleEscape? c = some plain) (hu : c ≠ 'u')
    (hU : c ≠ 'U') (rest : List Char) : escape false (c :: rest) = .ok ([plain], 1) := by
  simp [escape, hu, hU, h]

theorem escape_control {c : Char} (h : isControl c = true) (rest : List Char) :
    escape false ('u' :: (Text.Quoted.hexDigits 4 c.toNat ++ rest)) = .ok ([c], 5) := by
  simp only [escape, Bool.false_and, Bool.false_eq_true, if_false, if_true, hexEscape_control h]
  rfl

/-- One character of a string is read back, however it is written. -/
theorem readBasic_writeChar (c : Char) (done rest : List Char) :
    readBasic false done (writeChar c ++ rest) = readBasic false (c :: done) rest := by
  unfold writeChar
  split
  · next h =>
    refine readBasic_escape (escape_simple ?_ ?_ ?_ rest) rfl
    · rcases h with rfl | rfl <;> rfl
    · rcases h with rfl | rfl <;> decide
    · rcases h with rfl | rfl <;> decide
  split
  · next h =>
    subst h
    exact readBasic_escape (escape_simple rfl (by decide) (by decide) rest) rfl
  split
  · next h =>
    subst h
    exact readBasic_escape (escape_simple rfl (by decide) (by decide) rest) rfl
  split
  · next h =>
    subst h
    exact readBasic_escape (escape_simple rfl (by decide) (by decide) rest) rfl
  split
  · next h =>
    subst h
    exact readBasic_escape (escape_simple rfl (by decide) (by decide) rest) rfl
  split
  · next h =>
    refine readBasic_escape (escape_control h rest) ?_
    show (Text.Quoted.hexDigits 4 c.toNat ++ rest).drop 4 = rest
    rw [List.drop_append_of_le_length (by rw [Text.Quoted.length_hexDigits]),
      List.drop_of_length_le (by rw [Text.Quoted.length_hexDigits]), List.nil_append]
  · next hplain _ _ _ _ hcontrol =>
    rw [not_or] at hplain
    exact readBasic_plain hplain.1 hplain.2 (by simpa using hcontrol)

/-- A string is read back to its closing quote. -/
theorem readBasic_writeText (s done rest : List Char) :
    readBasic false done (s.flatMap writeChar ++ '"' :: rest) = .ok (done.reverse ++ s, rest) := by
  induction s generalizing done with
  | nil => simp [readBasic_quote]
  | cons c s ih =>
    rw [List.flatMap_cons, List.append_assoc, readBasic_writeChar, ih]
    simp

theorem head_writeChar (c : Char) (rest : List Char) :
    (writeChar c ++ rest).head? ≠ some '"' := by
  unfold writeChar
  split
  · simp
  split
  · simp
  split
  · simp
  split
  · simp
  split
  · simp
  split
  · simp
  · next hplain _ _ _ _ _ =>
    rw [not_or] at hplain
    simpa using hplain.1

theorem writeText_append (s rest : List Char) :
    writeText s ++ rest = '"' :: (s.flatMap writeChar ++ '"' :: rest) := by
  simp [writeText]

/-- A string is read as a value of one line. -/
theorem readString?_writeText (s : List Char) {rest : List Char} (hrest : rest.head? ≠ some '"') :
    readString? (writeText s ++ rest) = some (.ok (s, rest)) := by
  have hread : readBasic false [] (s.flatMap writeChar ++ '"' :: rest) = .ok (s, rest) := by
    rw [readBasic_writeText]
    rfl
  rw [writeText_append, readString?]
  · rw [hread]
  · intro more heq
    cases s with
    | nil =>
      rw [List.flatMap_nil, List.nil_append] at heq
      simp only [List.cons.injEq, true_and] at heq
      exact hrest (by rw [heq]; rfl)
    | cons c s =>
      rw [List.flatMap_cons, List.append_assoc] at heq
      exact head_writeChar c _ (by rw [heq]; rfl)

/-- A text at whose head a key part ends. -/
def StopsKey (rest : List Char) : Prop := ∀ c ∈ rest.head?, isBareKeyChar c = false

theorem writeKeyPart_cases (part : List Char) :
    (part ≠ [] ∧ (∀ c ∈ part, isBareKeyChar c = true) ∧ writeKeyPart part = part) ∨
      writeKeyPart part = writeText part := by
  unfold writeKeyPart
  split
  · next h =>
    simp only [Bool.and_eq_true, Bool.not_eq_true', List.isEmpty_eq_false_iff, List.all_eq_true]
      at h
    exact Or.inl ⟨h.1, h.2, rfl⟩
  · exact Or.inr rfl

/-- A key part begins with a bare key character or a quote. -/
theorem head_writeKeyPart (part rest : List Char) :
    ∃ c more, writeKeyPart part ++ rest = c :: more ∧ (isBareKeyChar c = true ∨ c = '"') := by
  rcases writeKeyPart_cases part with ⟨hne, hbare, heq⟩ | heq
  · cases part with
    | nil => exact absurd rfl hne
    | cons c more =>
      rw [heq]
      exact ⟨c, more ++ rest, rfl, Or.inl (hbare c List.mem_cons_self)⟩
  · rw [heq]
    exact ⟨'"', part.flatMap writeChar ++ ['"'] ++ rest, rfl, Or.inr rfl⟩

theorem readKeyPart_writeKeyPart (part : String) {rest : List Char} (hrest : StopsKey rest) :
    readKeyPart (writeKeyPart part.toList ++ rest) = .ok (part, rest) := by
  rcases writeKeyPart_cases part.toList with ⟨hne, hbare, heq⟩ | heq
  · have htake : (part.toList ++ rest).takeWhile isBareKeyChar = part.toList := by
      rw [List.takeWhile_append_of_pos hbare]
      cases rest with
      | nil => simp
      | cons c more => simp [hrest c rfl]
    have hdrop : (part.toList ++ rest).dropWhile isBareKeyChar = rest := by
      rw [List.dropWhile_append_of_pos hbare]
      cases rest with
      | nil => simp
      | cons c more => simp [hrest c rfl]
    have hhead : ∀ c ∈ (part.toList ++ rest).head?, isBareKeyChar c = true := by
      intro c hc
      rw [List.head?_append_of_ne_nil _ hne] at hc
      exact hbare c (List.mem_of_head? hc)
    rw [heq]
    unfold readKeyPart
    split
    · exact absurd (hhead '"' (by simp_all)) (by decide)
    · exact absurd (hhead '\'' (by simp_all)) (by decide)
    · simp [htake, hdrop, hne]
  · rw [heq, writeText_append, readKeyPart, readBasic_writeText]
    simp [bind, Except.bind]

/-- The parts of a key with dots between them. -/
def keyText : Key → List Char
  | [] => []
  | [part] => writeKeyPart part.toList
  | part :: rest => writeKeyPart part.toList ++ '.' :: keyText rest

/-- A key begins with a bare key character or a quote. -/
theorem head_keyText (part : String) (parts : Key) (rest : List Char) :
    ∃ c more, keyText (part :: parts) ++ rest = c :: more ∧
      (isBareKeyChar c = true ∨ c = '"') := by
  cases parts with
  | nil => exact head_writeKeyPart part.toList rest
  | cons second parts =>
    have hcons : keyText (part :: second :: parts) ++ rest =
        writeKeyPart part.toList ++ ('.' :: keyText (second :: parts) ++ rest) := by
      simp [keyText]
    rw [hcons]
    exact head_writeKeyPart part.toList _

theorem isEmpty_keyText (part : String) (parts : Key) :
    (keyText (part :: parts)).isEmpty = false := by
  obtain ⟨c, more, heq, -⟩ := head_keyText part parts []
  rw [List.append_nil] at heq
  rw [heq]
  rfl

theorem keyText_append (key : Key) (part : String) :
    keyText (key ++ [part]) = sectionName (keyText key) part := by
  induction key with
  | nil => rfl
  | cons first rest ih =>
    cases rest with
    | nil =>
      rw [sectionName, isEmpty_keyText]
      rfl
    | cons second more =>
      have hcons : keyText (first :: second :: more ++ [part]) =
          writeKeyPart first.toList ++ '.' :: keyText (second :: more ++ [part]) := rfl
      rw [hcons, ih, sectionName, sectionName, isEmpty_keyText, isEmpty_keyText]
      simp [keyText]

theorem length_le_keyText (key : Key) : key.length ≤ (keyText key).length := by
  induction key with
  | nil => exact Nat.le_refl 0
  | cons part rest ih =>
    obtain ⟨c, more, heq, -⟩ := head_writeKeyPart part.toList []
    have hpart : 0 < (writeKeyPart part.toList).length := by
      rw [List.append_nil] at heq
      rw [heq]
      exact Nat.succ_pos _
    cases rest with
    | nil => exact hpart
    | cons second more =>
      have hcons : (keyText (part :: second :: more)).length =
          (writeKeyPart part.toList).length + ((keyText (second :: more)).length + 1) := by
        simp [keyText]
      rw [hcons, List.length_cons]
      omega

theorem skipSpace_of_head {c : Char} (h : isSpace c = false) (rest : List Char) :
    skipSpace (c :: rest) = c :: rest := by
  simp [skipSpace, h]

theorem isSpace_keyHead {c : Char} (h : isBareKeyChar c = true ∨ c = '"') : isSpace c = false := by
  cases hspace : isSpace c with
  | false => rfl
  | true =>
    simp only [isSpace, Bool.or_eq_true, beq_iff_eq] at hspace
    rcases hspace with rfl | rfl <;> revert h <;> decide

/-- A key is read to its end, and the blanks behind it. -/
theorem readKeyWith_keyText {fuel : Nat} {key : Key} (hne : key ≠ []) (hfuel : key.length ≤ fuel)
    {rest : List Char} (hrest : StopsKey rest) (hdot : (skipSpace rest).head? ≠ some '.') :
    readKeyWith fuel (keyText key ++ rest) = .ok (key, skipSpace rest) := by
  induction key generalizing fuel with
  | nil => exact absurd rfl hne
  | cons part parts ih =>
    obtain ⟨fuel, rfl⟩ : ∃ n, fuel = n + 1 :=
      ⟨fuel - 1, by simp only [List.length_cons] at hfuel; omega⟩
    cases parts with
    | nil =>
      rw [readKeyWith]
      simp only [keyText, readKeyPart_writeKeyPart part hrest, bind, Except.bind]
      split
      · next heq =>
        rw [heq] at hdot
        exact absurd rfl hdot
      · rfl
    | cons second parts =>
      obtain ⟨c, more, heq, hc⟩ := head_keyText second parts rest
      have hstop : StopsKey ('.' :: (keyText (second :: parts) ++ rest)) :=
        fun c hc => by cases hc; decide
      have hpart := readKeyPart_writeKeyPart part hstop
      have hcons : keyText (part :: second :: parts) ++ rest =
          writeKeyPart part.toList ++ '.' :: (keyText (second :: parts) ++ rest) := by
        simp [keyText]
      have hskip : skipSpace (keyText (second :: parts) ++ rest) =
          keyText (second :: parts) ++ rest := by
        rw [heq, skipSpace_of_head (isSpace_keyHead hc)]
      have hlength : (second :: parts).length ≤ fuel := by
        simp only [List.length_cons] at hfuel ⊢
        omega
      have hmore := ih (by simp) hlength
      rw [hcons, readKeyWith]
      simp only [hpart, bind, Except.bind, skipSpace_of_head (c := '.') rfl, hskip, hmore]

theorem readKey_keyText {key : Key} (hne : key ≠ []) {rest : List Char} (hrest : StopsKey rest)
    (hdot : (skipSpace rest).head? ≠ some '.') :
    readKey (keyText key ++ rest) = .ok (key, skipSpace rest) := by
  have hlength := length_le_keyText key
  refine readKeyWith_keyText hne ?_ hrest hdot
  rw [List.length_append]
  omega

end MarkupTidy.Toml
