import MarkupTidy.Toml.Reader

/-!
The limits of reading. Every reader leaves a part of its text behind, so nothing is read twice. A
number is refused for its length only in a text with more digits than the limit, and a container
for its depth only in a text that opens more containers than there is room for.
-/
namespace MarkupTidy.Toml

/-- The number of decimal digits in a text. -/
def digitCount (s : List Char) : Nat := s.countP isDecimalDigit

/-- The room that a text takes if every container in it is opened within the one before. -/
def openedRoom (s : List Char) : Nat := 2 * s.count '[' + 3 * s.count '{'

/-- If the fault names a limit, the text exceeds it. -/
def Exceeds (room : Nat) (s : List Char) : Fault (List Char) → Prop
  | .malformed _ _ => True
  | .tooManyDigits count => digitLimit < count ∧ count ≤ digitCount s
  | .tooDeep => room < openedRoom s

/-- A reading leaves a part of the text, or fails for a limit only if the text exceeds it. -/
def ReadsFrom {α : Type} (room : Nat) (s : List Char) (rest : α → List Char) : Reading α → Prop
  | .ok value => (rest value).Sublist s
  | .error fault => Exceeds room s fault

theorem digitCount_le {s t : List Char} (h : s.Sublist t) : digitCount s ≤ digitCount t :=
  h.countP_le

theorem openedRoom_le {s t : List Char} (h : s.Sublist t) : openedRoom s ≤ openedRoom t := by
  have hlists : s.count '[' ≤ t.count '[' := h.count_le '['
  have htables : s.count '{' ≤ t.count '{' := h.count_le '{'
  unfold openedRoom
  omega

section ReadsFrom

variable {α β : Type} {room : Nat} {s t : List Char} {rest : α → List Char} {rest' : β → List Char}

/-- What a part of a text exceeds, the text does. -/
theorem Exceeds.mono {fault : Fault (List Char)} (h : Exceeds room s fault) (hst : s.Sublist t) :
    Exceeds room t fault := by
  cases fault with
  | malformed problem place => trivial
  | tooManyDigits count => exact ⟨h.1, Nat.le_trans h.2 (digitCount_le hst)⟩
  | tooDeep => exact Nat.lt_of_lt_of_le h (openedRoom_le hst)

theorem ReadsFrom.mono {reading : Reading α} (h : ReadsFrom room s rest reading)
    (hst : s.Sublist t) : ReadsFrom room t rest reading := by
  cases reading with
  | ok value => exact List.Sublist.trans h hst
  | error fault => exact Exceeds.mono h hst

theorem ReadsFrom.later {c : Char} {reading : Reading α} (h : ReadsFrom room s rest reading) :
    ReadsFrom room (c :: s) rest reading :=
  h.mono (List.sublist_cons_self c s)

/-- What follows a reading reads on from what it left. -/
theorem ReadsFrom.bind {reading : Reading α} {next : α → Reading β}
    (h : ReadsFrom room s rest reading)
    (hnext : ∀ value, ReadsFrom room (rest value) rest' (next value)) :
    ReadsFrom room s rest' (reading >>= next) := by
  cases reading with
  | ok value => exact (hnext value).mono h
  | error fault => exact h

theorem readsFrom_refuse (problem : Problem) (place : List Char) :
    ReadsFrom room s rest (refuse problem place) := trivial

theorem readsFrom_refuseWith (place : List Char) (result : Except Problem α) :
    ReadsFrom room s (fun _ => s) (refuseWith place result) := by
  cases result with
  | ok value => exact List.Sublist.refl s
  | error problem => trivial

end ReadsFrom

/-! Blanks, comments and strings. -/

section Words

variable {room : Nat}

theorem sublist_of_cons {c : Char} {s t : List Char} (h : (c :: s).Sublist t) : s.Sublist t :=
  (List.sublist_cons_self c s).trans h

theorem skipSpace_sublist (s : List Char) : (skipSpace s).Sublist s := List.dropWhile_sublist _

theorem rejectAny_readsFrom (p : Char → Bool) (text behind s : List Char) :
    ReadsFrom room s (fun _ => s) (rejectAny p text behind) := by
  unfold rejectAny
  split
  · exact List.Sublist.refl s
  · exact readsFrom_refuse _ _

theorem skipComment_readsFrom (s : List Char) : ReadsFrom room s id (skipComment s) := by
  unfold skipComment
  split
  · next comment =>
    apply (rejectAny_readsFrom _ _ _ _).bind
    intro value
    exact (List.dropWhile_sublist _).trans (List.sublist_cons_self _ _)
  · exact List.Sublist.refl s

theorem skipFiller_readsFrom (s : List Char) : ReadsFrom room s id (skipFiller s) := by
  fun_induction skipFiller s with
  | case1 s comment hfiller rest ih =>
    have hcomment : comment.Sublist s := by
      apply sublist_of_cons (c := '#')
      rw [← hfiller]
      exact List.dropWhile_sublist _
    apply (rejectAny_readsFrom _ _ _ s).bind
    intro value
    exact ih.mono ((List.dropWhile_sublist _).trans hcomment)
  | case2 s hfiller => exact List.dropWhile_sublist _

theorem cutAt?_sublist {delimiter s text rest : List Char}
    (h : cutAt? delimiter s = some (text, rest)) : rest.Sublist s := by
  induction s generalizing text with
  | nil => cases h
  | cons c more ih =>
    rw [cutAt?] at h
    split at h
    · cases h
      exact List.drop_sublist _ _
    · obtain ⟨cut, hcut, heq⟩ := Option.map_eq_some_iff.1 h
      cases heq
      exact (ih hcut).trans (List.sublist_cons_self c more)

theorem readUntil_readsFrom (delimiter : List Char) (illegal : Char → Bool) (s : List Char) :
    ReadsFrom room s Prod.snd (readUntil delimiter illegal s) := by
  unfold readUntil
  split
  · exact readsFrom_refuse _ _
  · next text rest hcut =>
    apply (rejectAny_readsFrom _ _ _ s).bind
    intro value
    exact cutAt?_sublist hcut

theorem hexEscape_readsFrom (width : Nat) (s t : List Char) :
    ReadsFrom room t (fun _ => t) (hexEscape width s) := by
  unfold hexEscape
  dsimp only
  split
  · split
    · exact List.Sublist.refl t
    · exact readsFrom_refuse _ _
  · exact readsFrom_refuse _ _

theorem lineContinuation_readsFrom (s t : List Char) :
    ReadsFrom room t (fun _ => t) (lineContinuation s) := by
  unfold lineContinuation
  split
  · exact List.Sublist.refl t
  · exact List.Sublist.refl t
  · exact readsFrom_refuse _ _

/-- An escape fails for no limit at all. -/
theorem escape_readsFrom (multiline : Bool) (s t : List Char) :
    ReadsFrom room t (fun _ => t) (escape multiline s) := by
  unfold escape
  split
  · exact readsFrom_refuse _ _
  · split
    · apply (lineContinuation_readsFrom _ t).bind
      intro visible
      exact List.Sublist.refl t
    · split
      · apply (hexEscape_readsFrom 4 _ t).bind
        intro plain
        exact List.Sublist.refl t
      · split
        · apply (hexEscape_readsFrom 8 _ t).bind
          intro plain
          exact List.Sublist.refl t
        · split
          · exact List.Sublist.refl t
          · exact readsFrom_refuse _ _

theorem readBasic_readsFrom (multiline : Bool) (done s : List Char) :
    ReadsFrom room s Prod.snd (readBasic multiline done s) := by
  fun_induction readBasic multiline done s with
  | case1 done => exact readsFrom_refuse _ _
  | case2 done rest =>
    have hrest : (if multiline then rest else '"' :: '"' :: rest).Sublist
        ('"' :: '"' :: '"' :: rest) := by
      split
      · exact (List.suffix_append ['"', '"', '"'] rest).sublist
      · exact List.sublist_cons_self _ _
    exact hrest
  | case3 done rest hquotes hmultiline ih => exact ih.later
  | case4 done rest hquotes hmultiline => exact List.sublist_cons_self _ _
  | case5 done rest fault hescape =>
    have hreads : ReadsFrom room ('\\' :: rest) (fun _ => '\\' :: rest) (escape multiline rest) :=
      escape_readsFrom multiline rest _
    rw [hescape] at hreads
    exact hreads
  | case6 done rest plain width hescape ih => exact (ih.mono (List.drop_sublist _ _)).later
  | case7 done c rest hquotes hquote hslash hcontrol => exact readsFrom_refuse _ _
  | case8 done c rest hquotes hquote hslash hcontrol ih => exact ih.later

theorem takeClosing_sublist (quote : Char) (text s : List Char) :
    (takeClosing quote text s).2.Sublist s := by
  unfold takeClosing
  split
  · next a b rest =>
    split
    · exact (List.suffix_append [a, b] rest).sublist
    · split
      · exact List.sublist_cons_self _ _
      · exact List.Sublist.refl _
  · split
    · exact List.nil_sublist _
    · exact List.Sublist.refl _
  · exact List.Sublist.refl _

theorem dropFirstNewline_sublist (s : List Char) : (dropFirstNewline s).Sublist s := by
  unfold dropFirstNewline
  split
  · exact List.sublist_cons_self _ _
  · exact List.Sublist.refl s

theorem readString?_readsFrom {s : List Char} {reading : Reading (List Char × List Char)}
    (h : readString? s = some reading) : ReadsFrom room s Prod.snd reading := by
  unfold readString? at h
  split at h
  · next rest =>
    cases h
    have hopened : (dropFirstNewline rest).Sublist ('"' :: '"' :: '"' :: rest) :=
      (dropFirstNewline_sublist rest).trans (List.suffix_append ['"', '"', '"'] rest).sublist
    apply ReadsFrom.mono _ hopened
    apply (readBasic_readsFrom true [] _).bind
    intro value
    exact takeClosing_sublist _ _ _
  · next rest =>
    cases h
    have hopened : (dropFirstNewline rest).Sublist ('\'' :: '\'' :: '\'' :: rest) :=
      (dropFirstNewline_sublist rest).trans (List.suffix_append ['\'', '\'', '\''] rest).sublist
    apply ReadsFrom.mono _ hopened
    apply (readUntil_readsFrom _ _ _).bind
    intro value
    exact takeClosing_sublist _ _ _
  · cases h
    exact (readBasic_readsFrom false [] _).later
  · cases h
    exact (readUntil_readsFrom _ _ _).later
  · cases h

theorem readKeyPart_readsFrom (s : List Char) : ReadsFrom room s Prod.snd (readKeyPart s) := by
  unfold readKeyPart
  split
  · apply ReadsFrom.later
    apply (readBasic_readsFrom false [] _).bind
    intro value
    exact List.Sublist.refl _
  · apply ReadsFrom.later
    apply (readUntil_readsFrom _ _ _).bind
    intro value
    exact List.Sublist.refl _
  · dsimp only
    split
    · exact readsFrom_refuse _ _
    · exact List.dropWhile_sublist _

theorem readKeyWith_readsFrom (fuel : Nat) (s : List Char) :
    ReadsFrom room s Prod.snd (readKeyWith fuel s) := by
  induction fuel generalizing s with
  | zero => exact readsFrom_refuse _ _
  | succ fuel ih =>
    rw [readKeyWith]
    apply (readKeyPart_readsFrom s).bind
    intro ⟨part, behind⟩
    dsimp only
    split
    · next rest hdot =>
      have hrest : (skipSpace rest).Sublist behind := by
        have hbehind := skipSpace_sublist behind
        rw [hdot] at hbehind
        exact (skipSpace_sublist rest).trans (sublist_of_cons hbehind)
      apply ReadsFrom.mono _ hrest
      apply (ih (skipSpace rest)).bind
      intro value
      exact List.Sublist.refl _
    · exact skipSpace_sublist behind

theorem readKey_readsFrom (s : List Char) : ReadsFrom room s Prod.snd (readKey s) :=
  readKeyWith_readsFrom _ s

end Words

/-! Numbers, dates and times. -/

section Numbers

variable {room : Nat}

/-- Characters of a class were taken out of a text, and do not stand in what is left. -/
structure TakesFrom (p : Char → Bool) (s taken rest : List Char) : Prop where
  sublist : rest.Sublist s
  count : taken.length + rest.countP p ≤ s.countP p

theorem takesFrom_nil (p : Char → Bool) (s : List Char) : TakesFrom p s [] s :=
  ⟨List.Sublist.refl s, by simp⟩

theorem TakesFrom.cons {p : Char → Bool} {s taken rest : List Char} {c : Char}
    (h : TakesFrom p s taken rest) (hc : p c = true) :
    TakesFrom p (c :: s) (c :: taken) rest := by
  constructor
  · exact h.sublist.trans (List.sublist_cons_self c s)
  · have hcount := h.count
    rw [List.countP_cons_of_pos hc, List.length_cons]
    omega

theorem TakesFrom.mono {p : Char → Bool} {s t taken rest : List Char}
    (h : TakesFrom p s taken rest) (hst : s.Sublist t) : TakesFrom p t taken rest :=
  ⟨h.sublist.trans hst, Nat.le_trans h.count hst.countP_le⟩

theorem takeGrouped_takesFrom (p : Char → Bool) (s : List Char) :
    TakesFrom p s (takeGrouped p s).1 (takeGrouped p s).2 := by
  fun_induction takeGrouped p s with
  | case1 => exact takesFrom_nil p []
  | case2 c rest hc digits behind htaken ih =>
    rw [htaken] at ih
    exact (ih.cons hc).mono (List.sublist_cons_self _ _)
  | case3 c rest hc => exact takesFrom_nil p _
  | case4 c rest hlast hc digits behind htaken ih =>
    rw [htaken] at ih
    exact ih.cons hc
  | case5 c rest hlast hc => exact takesFrom_nil p _

theorem readGrouped?_takesFrom {p : Char → Bool} {s digits rest : List Char}
    (h : readGrouped? p s = some (digits, rest)) : TakesFrom p s digits rest := by
  unfold readGrouped? at h
  split at h
  · cases h
  · next c more =>
    split at h
    · next hc =>
      cases h
      exact (takeGrouped_takesFrom p more).cons hc
    · cases h

theorem splitSign_sublist (s : List Char) : (Binary64.splitSign s).2.Sublist s := by
  unfold Binary64.splitSign
  split
  · exact List.sublist_cons_self _ _
  · exact List.sublist_cons_self _ _
  · exact List.Sublist.refl s

theorem readBased?_sublist {s rest : List Char} {v : Value}
    (h : readBased? s = some (v, rest)) : rest.Sublist s := by
  have hmap : ∀ {p : Char → Bool} {a b : Char} {t : List Char} {f : List Char × List Char → Value},
      (readGrouped? p t).map (fun r => (f r, r.2)) = some (v, rest) →
        rest.Sublist (a :: b :: t) := by
    intro p a b t f hread
    obtain ⟨⟨digits, behind⟩, hgrouped, heq⟩ := Option.map_eq_some_iff.1 hread
    cases heq
    exact (readGrouped?_takesFrom hgrouped).sublist.trans (List.suffix_append [a, b] t).sublist
  unfold readBased? at h
  split at h
  · exact hmap h
  · exact hmap h
  · exact hmap h
  · cases h

theorem wholePart?_takesFrom {s digits rest : List Char}
    (h : wholePart? s = some (digits, rest)) : TakesFrom isDecimalDigit s digits rest := by
  unfold wholePart? at h
  split at h
  · cases h
    exact (takesFrom_nil isDecimalDigit _).cons (by decide)
  · exact readGrouped?_takesFrom h

theorem fractionPart?_sublist (s : List Char) :
    (((fractionPart? s).map Prod.snd).getD s).Sublist s := by
  unfold fractionPart?
  split
  · next rest =>
    cases hread : readGrouped? isDecimalDigit rest with
    | none => exact List.Sublist.refl _
    | some read =>
      exact (readGrouped?_takesFrom hread).sublist.trans (List.sublist_cons_self _ _)
  · exact List.Sublist.refl s

theorem exponentPart?_sublist {s digits rest : List Char} {negative : Bool}
    (h : exponentPart? s = some (negative, digits, rest)) : rest.Sublist s := by
  unfold exponentPart? at h
  split at h
  · next c more =>
    split at h
    · obtain ⟨read, hread, heq⟩ := Option.map_eq_some_iff.1 h
      cases heq
      exact (readGrouped?_takesFrom hread).sublist.trans
        ((splitSign_sublist more).trans (List.sublist_cons_self c more))
    · cases h
  · cases h

/-- A whole number is refused for its length only if the text has that many digits. -/
theorem readDecimal?_readsFrom {s : List Char} {reading : Reading (Value × List Char)}
    (h : readDecimal? s = some reading) : ReadsFrom room s Prod.snd reading := by
  simp only [readDecimal?, Option.bind_eq_bind, Option.bind_eq_some_iff] at h
  obtain ⟨⟨whole, afterWhole⟩, hwhole, h⟩ := h
  have htaken : TakesFrom isDecimalDigit s whole afterWhole :=
    (wholePart?_takesFrom hwhole).mono (splitSign_sublist s)
  have hfraction : (((fractionPart? afterWhole).map Prod.snd).getD afterWhole).Sublist s :=
    (fractionPart?_sublist afterWhole).trans htaken.sublist
  split at h
  · next exponentNegative exponent rest hexponent =>
    cases h
    exact (exponentPart?_sublist hexponent).trans hfraction
  · split at h
    · cases h
      exact hfraction
    · split at h
      · next hlong =>
        cases h
        have hcount := htaken.count
        exact ⟨hlong, Nat.le_trans (Nat.le_add_right _ _) hcount⟩
      · cases h
        exact hfraction

theorem readSpecial?_sublist {s rest : List Char} {v : Value}
    (h : readSpecial? s = some (v, rest)) : rest.Sublist s := by
  have hsign := splitSign_sublist s
  simp only [readSpecial?] at h
  split at h
  · next hword =>
    cases h
    rw [hword] at hsign
    exact (List.suffix_append ['i', 'n', 'f'] rest).sublist.trans hsign
  · next hword =>
    cases h
    rw [hword] at hsign
    exact (List.suffix_append ['n', 'a', 'n'] rest).sublist.trans hsign
  · cases h

theorem readField?_sublist {width low high n : Nat} {s rest : List Char}
    (h : readField? width low high s = some (n, rest)) : rest.Sublist s := by
  simp only [readField?] at h
  split at h
  · split at h
    · cases h
      exact List.drop_sublist _ _
    · cases h
  · cases h

theorem expectChar?_sublist {c : Char} {s rest : List Char}
    (h : expectChar? c s = some rest) : rest.Sublist s := by
  unfold expectChar? at h
  split at h
  · split at h
    · cases h
      exact List.sublist_cons_self _ _
    · cases h
  · cases h

theorem readFraction_sublist (s : List Char) : (readFraction s).2.Sublist s := by
  unfold readFraction
  split
  · dsimp only
    split
    · exact List.Sublist.refl _
    · exact (List.dropWhile_sublist _).trans (List.sublist_cons_self _ _)
  · exact List.Sublist.refl s

theorem readTime?_sublist {s rest : List Char} {t : TimeOfDay}
    (h : readTime? s = some (t, rest)) : rest.Sublist s := by
  simp only [readTime?, Option.bind_eq_bind, Option.bind_eq_some_iff] at h
  obtain ⟨⟨hour, s₁⟩, hhour, s₂, hcolon, ⟨minute, s₃⟩, hminute, s₄, hcolon', ⟨second, s₅⟩,
    hsecond, h⟩ := h
  cases h
  have hminutes : s₂.Sublist s := (expectChar?_sublist hcolon).trans (readField?_sublist hhour)
  have hseconds : s₄.Sublist s :=
    (expectChar?_sublist hcolon').trans ((readField?_sublist hminute).trans hminutes)
  exact (readFraction_sublist s₅).trans ((readField?_sublist hsecond).trans hseconds)

theorem readOffset?_sublist {s rest : List Char} {minutes : Int}
    (h : readOffset? s = some (minutes, rest)) : rest.Sublist s := by
  unfold readOffset? at h
  split at h
  · cases h
  · next c more =>
    split at h
    · cases h
      exact List.sublist_cons_self _ _
    · split at h
      · simp only [Option.bind_eq_bind, Option.bind_eq_some_iff] at h
        obtain ⟨⟨hour, s₁⟩, hhour, s₂, hcolon, ⟨minute, s₃⟩, hminute, h⟩ := h
        cases h
        have hminutes : s₂.Sublist more :=
          (expectChar?_sublist hcolon).trans (readField?_sublist hhour)
        exact (readField?_sublist hminute).trans
          (hminutes.trans (List.sublist_cons_self c more))
      · cases h

theorem readDate?_sublist {s rest : List Char} {d : Date} {time : Option (TimeOfDay × Option Int)}
    (h : readDate? s = some (d, time, rest)) : rest.Sublist s := by
  simp only [readDate?, Option.bind_eq_bind, Option.bind_eq_some_iff] at h
  obtain ⟨⟨year, s₁⟩, hyear, s₂, hdash, ⟨month, s₃⟩, hmonth, s₄, hdash', ⟨day, s₅⟩, hday, h⟩ := h
  have hmonths : s₂.Sublist s := (expectChar?_sublist hdash).trans (readField?_sublist hyear)
  have hdays : s₄.Sublist s :=
    (expectChar?_sublist hdash').trans ((readField?_sublist hmonth).trans hmonths)
  have hbehind : s₅.Sublist s := (readField?_sublist hday).trans hdays
  split at h
  · cases h
    exact hbehind
  · next found behind hfound =>
    have htime : behind.Sublist s := by
      cases s₅ with
      | nil => cases hfound
      | cons c more =>
        dsimp only at hfound
        split at hfound
        · exact (readTime?_sublist hfound).trans (sublist_of_cons hbehind)
        · cases hfound
    split at h
    · cases h
      exact htime
    · next hoffset =>
      cases h
      exact (readOffset?_sublist hoffset).trans htime

theorem readScalar_readsFrom (s : List Char) : ReadsFrom room s Prod.snd (readScalar s) := by
  unfold readScalar
  split
  · exact (List.suffix_append ['t', 'r', 'u', 'e'] _).sublist
  · exact (List.suffix_append ['f', 'a', 'l', 's', 'e'] _).sublist
  split
  · next hdate =>
    split
    · exact readsFrom_refuse _ _
    · split
      · exact readDate?_sublist hdate
      · exact readDate?_sublist hdate
  split
  · next htime => exact readTime?_sublist htime
  split
  · next hbased => exact readBased?_sublist hbased
  split
  · next hdecimal => exact readDecimal?_readsFrom hdecimal
  split
  · next hspecial => exact readSpecial?_sublist hspecial
  · exact readsFrom_refuse _ _

end Numbers

/-! Containers and statements. -/

/-- With this fuel, every value is read from its text within its limits, and so are its parts. -/
structure ReadsAllFrom (fuel : Nat) : Prop where
  value : ∀ (room : Nat) (s : List Char), ReadsFrom room s Prod.snd (readValue fuel room s)
  items : ∀ (room : Nat) (done : List Value) (s : List Char),
    ReadsFrom room s Prod.snd (readItems fuel room done s)
  members : ∀ (room : Nat) (done : InlineTable) (s : List Char),
    ReadsFrom room s Prod.snd (readMembers fuel room done s)
  entry : ∀ (room : Nat) (s : List Char),
    ReadsFrom room s (fun read => read.2.2) (readEntry fuel room s)

theorem openedRoom_bracket (s : List Char) : openedRoom ('[' :: s) = openedRoom s + 2 := by
  simp only [openedRoom, List.count_cons_self, List.count_cons_of_ne (by decide : '[' ≠ '{')]
  omega

theorem openedRoom_brace (s : List Char) : openedRoom ('{' :: s) = openedRoom s + 3 := by
  simp only [openedRoom, List.count_cons_self, List.count_cons_of_ne (by decide : '{' ≠ '[')]
  omega

/-- What is read behind an opening character has as much less room as that character takes. -/
theorem ReadsFrom.opened {α : Type} {room width : Nat} {c : Char} {s : List Char}
    {rest : α → List Char} {reading : Reading α} (h : ReadsFrom room s rest reading)
    (hwidth : openedRoom (c :: s) = openedRoom s + width) :
    ReadsFrom (room + width) (c :: s) rest reading := by
  cases reading with
  | ok value => exact List.Sublist.trans h (List.sublist_cons_self _ _)
  | error fault =>
    cases fault with
    | malformed problem place => trivial
    | tooManyDigits count =>
      exact ⟨h.1, Nat.le_trans h.2 (digitCount_le (List.sublist_cons_self _ _))⟩
    | tooDeep =>
      have hdeep : room < openedRoom s := h
      show room + width < openedRoom (c :: s)
      omega

theorem readValue_readsFrom {fuel : Nat} (ih : ReadsAllFrom fuel) (room : Nat) (s : List Char) :
    ReadsFrom room s Prod.snd (readValue (fuel + 1) room s) := by
  unfold readValue
  split
  · next reading hstring =>
    apply (readString?_readsFrom hstring).bind
    intro value
    exact List.Sublist.refl _
  split
  · next rest hnone =>
    have hwidth := openedRoom_bracket rest
    split
    · next room =>
      apply ReadsFrom.opened _ hwidth
      apply (skipFiller_readsFrom rest).bind
      intro behind
      dsimp only [id]
      split
      · exact List.sublist_cons_self _ _
      · exact ih.items room [] behind
    · next hroom =>
      have hfull : room < 2 := by
        apply Nat.lt_of_not_le
        intro hle
        exact hroom (room - 2) (by omega)
      show room < openedRoom ('[' :: rest)
      omega
  · next rest hnone =>
    have hwidth := openedRoom_brace rest
    split
    · next room =>
      apply ReadsFrom.opened _ hwidth
      apply ReadsFrom.mono _ (skipSpace_sublist rest)
      split
      · next more hclosed =>
        rw [hclosed]
        exact List.sublist_cons_self _ _
      · exact ih.members room ⟨[], []⟩ _
    · next hroom =>
      have hfull : room < 3 := by
        apply Nat.lt_of_not_le
        intro hle
        exact hroom (room - 3) (by omega)
      show room < openedRoom ('{' :: rest)
      omega
  · exact readScalar_readsFrom _

theorem readItems_readsFrom {fuel : Nat} (ih : ReadsAllFrom fuel) (room : Nat)
    (done : List Value) (s : List Char) :
    ReadsFrom room s Prod.snd (readItems (fuel + 1) room done s) := by
  rw [readItems]
  apply (ih.value room s).bind
  intro ⟨value, behind⟩
  apply (skipFiller_readsFrom behind).bind
  intro next
  dsimp only [id]
  split
  · exact List.sublist_cons_self _ _
  · next rest =>
    apply ReadsFrom.later
    apply (skipFiller_readsFrom rest).bind
    intro more
    dsimp only [id]
    split
    · exact List.sublist_cons_self _ _
    · exact ih.items room (value :: done) more
  · exact readsFrom_refuse _ _

theorem readMembers_readsFrom {fuel : Nat} (ih : ReadsAllFrom fuel) (room : Nat)
    (done : InlineTable) (s : List Char) :
    ReadsFrom room s Prod.snd (readMembers (fuel + 1) room done s) := by
  rw [readMembers]
  apply (ih.entry room s).bind
  intro ⟨key, value, behind⟩
  apply (readsFrom_refuseWith behind _).bind
  intro more
  apply ReadsFrom.mono _ (skipSpace_sublist behind)
  split
  · next rest hclosed =>
    rw [hclosed]
    exact List.sublist_cons_self _ _
  · next rest hcomma =>
    rw [hcomma]
    exact ((ih.members room more _).mono (skipSpace_sublist rest)).later
  · exact readsFrom_refuse _ _

theorem readEntry_readsFrom {fuel : Nat} (ih : ReadsAllFrom fuel) (room : Nat) (s : List Char) :
    ReadsFrom room s (fun read => read.2.2) (readEntry (fuel + 1) room s) := by
  rw [readEntry]
  apply (readKey_readsFrom s).bind
  intro ⟨key, behind⟩
  dsimp only
  split
  · next rest =>
    apply ReadsFrom.later
    apply ReadsFrom.mono _ (skipSpace_sublist rest)
    apply (ih.value room (skipSpace rest)).bind
    intro value
    exact List.Sublist.refl _
  · exact readsFrom_refuse _ _

theorem readsAllFrom (fuel : Nat) : ReadsAllFrom fuel := by
  induction fuel with
  | zero =>
    constructor
    · intro room s
      exact readsFrom_refuse _ _
    · intro room done s
      exact readsFrom_refuse _ _
    · intro room done s
      exact readsFrom_refuse _ _
    · intro room s
      exact readsFrom_refuse _ _
  | succ fuel ih =>
    exact ⟨readValue_readsFrom ih, readItems_readsFrom ih, readMembers_readsFrom ih,
      readEntry_readsFrom ih⟩

theorem readTableHeader_readsFrom {room : Nat} (s : List Char) (d : Document) :
    ReadsFrom room s Prod.snd (readTableHeader s d) := by
  rw [readTableHeader]
  apply ReadsFrom.mono _ (skipSpace_sublist s)
  apply (readKey_readsFrom _).bind
  intro ⟨key, behind⟩
  apply (readsFrom_refuseWith behind _).bind
  intro opened
  split
  · exact List.sublist_cons_self _ _
  · exact readsFrom_refuse _ _

theorem readListHeader_readsFrom {room : Nat} (s : List Char) (d : Document) :
    ReadsFrom room s Prod.snd (readListHeader s d) := by
  rw [readListHeader]
  apply ReadsFrom.mono _ (skipSpace_sublist s)
  apply (readKey_readsFrom _).bind
  intro ⟨key, behind⟩
  apply (readsFrom_refuseWith behind _).bind
  intro opened
  split
  · next rest => exact (List.suffix_append [']', ']'] rest).sublist
  · exact readsFrom_refuse _ _

theorem readStatement_readsFrom (d : Document) (s : List Char) :
    ReadsFrom nestingRoom s Prod.snd (readStatement d s) := by
  unfold readStatement
  split
  · exact List.Sublist.refl _
  · next rest =>
    apply ReadsFrom.mono _ (List.suffix_append ['[', '['] rest).sublist
    apply (readListHeader_readsFrom rest _).bind
    intro ⟨opened, behind⟩
    exact skipSpace_sublist behind
  · apply ReadsFrom.later
    apply (readTableHeader_readsFrom _ _).bind
    intro ⟨opened, behind⟩
    exact skipSpace_sublist behind
  · split
    · apply ((readsAllFrom _).entry nestingRoom _).bind
      intro ⟨key, value, behind⟩
      apply (readsFrom_refuseWith behind _).bind
      intro next
      exact skipSpace_sublist behind
    · split
      · exact List.Sublist.refl _
      · exact readsFrom_refuse _ _

/-- A document is refused for a limit only if its text exceeds it. -/
theorem readStatements_readsFrom (fuel : Nat) (d : Document) (s : List Char) :
    ReadsFrom nestingRoom s (fun _ => []) (readStatements fuel d s) := by
  induction fuel generalizing d s with
  | zero => exact List.nil_sublist s
  | succ fuel ih =>
    rw [readStatements]
    apply ReadsFrom.mono _ (skipSpace_sublist s)
    split
    · exact List.nil_sublist _
    · next rest hline =>
      rw [hline]
      exact (ih d rest).later
    · apply (readStatement_readsFrom d _).bind
      intro ⟨next, behind⟩
      apply (skipComment_readsFrom behind).bind
      intro more
      dsimp only [id]
      split
      · exact List.nil_sublist _
      · next rest => exact (ih next rest).later
      · exact readsFrom_refuse _ _

theorem joinLineEnds_sublist (s : List Char) : (Text.joinLineEnds s).Sublist s := by
  fun_induction Text.joinLineEnds s with
  | case1 => exact List.Sublist.refl _
  | case2 rest ih => exact (ih.cons_cons '\n').trans (List.sublist_cons_self _ _)
  | case3 c rest hbreak ih => exact ih.cons_cons c

theorem read_exceeds {text : List Char} {fault : Fault (Option Text.Place)}
    (h : read text = .error fault) :
    ∃ inner, fault = inner.mapPlace (placeOf (Text.joinLineEnds text)) ∧
      Exceeds nestingRoom text inner := by
  have hreads := readStatements_readsFrom ((Text.joinLineEnds text).length + 1) Document.empty
    (Text.joinLineEnds text)
  rw [read, readLines] at h
  cases hread : readStatements ((Text.joinLineEnds text).length + 1) Document.empty
      (Text.joinLineEnds text) with
  | ok d =>
    rw [hread] at h
    cases h
  | error inner =>
    rw [hread] at h hreads
    cases h
    exact ⟨inner, rfl, Exceeds.mono hreads (joinLineEnds_sublist text)⟩

/-- A number is too long to read only in a text with more digits than the limit. -/
theorem digitLimit_lt_of_read {text : List Char} {count : Nat}
    (h : read text = .error (.tooManyDigits count)) :
    digitLimit < count ∧ count ≤ digitCount text := by
  obtain ⟨inner, hinner, hexceeds⟩ := read_exceeds h
  cases inner with
  | malformed problem place => cases hinner
  | tooManyDigits digits =>
    cases hinner
    exact hexceeds
  | tooDeep => cases hinner

/-- Containers are too deep to read only in a text that opens more than there is room for. -/
theorem nestingRoom_lt_of_read {text : List Char} (h : read text = .error .tooDeep) :
    nestingRoom < openedRoom text := by
  obtain ⟨inner, hinner, hexceeds⟩ := read_exceeds h
  cases inner with
  | malformed problem place => cases hinner
  | tooManyDigits digits => cases hinner
  | tooDeep => exact hexceeds

end MarkupTidy.Toml
