import MarkupTidy.Text.Utf8

/-!
Characters written as octets are read back. The lead octet announces how many octets there are,
every other octet carries six bits, and no character has a longer form than it needs.
-/
namespace MarkupTidy.Text.Utf8

theorem toNat_octet {n : Nat} (h : n < 256) : (UInt8.ofNat n).toNat = n := by
  rw [UInt8.toNat_ofNat']
  omega

/-- An octet that carries six bits behind the lead octet. -/
theorem isContinuation_octet {n : Nat} (h : n < 0x40) :
    isContinuation (UInt8.ofNat (0x80 + n)) = true := by
  have hoctet := toNat_octet (n := 0x80 + n) (by omega)
  simp only [isContinuation, Bool.and_eq_true, decide_eq_true_eq, UInt8.le_iff_toNat_le, hoctet]
  constructor
  · show 128 ≤ 128 + n
    omega
  · show 128 + n ≤ 191
    omega

theorem payload_octet {n : Nat} (h : n < 0x40) : payload (UInt8.ofNat (0x80 + n)) = n := by
  rw [payload, toNat_octet (by omega)]
  omega

/-- What may follow the lead octets that leave some second octets out. -/
theorem isSecond_octet {lead n : Nat} (hlead : lead < 256) (h : n < 0x40)
    (hlow : lead = 0xE0 → 0x20 ≤ n) (hsurrogate : lead = 0xED → n < 0x20)
    (hlow' : lead = 0xF0 → 0x10 ≤ n) (hhigh : lead = 0xF4 → n < 0x10) :
    isSecond (UInt8.ofNat lead) (UInt8.ofNat (0x80 + n)) = true := by
  have hoctet := toNat_octet (n := 0x80 + n) (by omega)
  have hfirst := toNat_octet hlead
  -- a lead octet that leaves some out, and the bound for those that are left
  have hbound : ∀ (m : UInt8) {p : Prop}, (lead = m.toNat → p) → UInt8.ofNat lead ≠ m ∨ p := by
    intro m p hp
    by_cases heq : UInt8.ofNat lead = m
    · exact Or.inr (hp (by rw [← heq, hfirst]))
    · exact Or.inl heq
  simp only [isSecond, isContinuation_octet h, Bool.true_and, Bool.and_eq_true, Bool.not_eq_true',
    Bool.and_eq_false_iff, beq_eq_false_iff_ne, decide_eq_false_iff_not, UInt8.lt_iff_toNat_lt,
    UInt8.le_iff_toNat_le, hoctet]
  refine ⟨⟨⟨hbound 0xE0 fun heq => ?_, hbound 0xED fun heq => ?_⟩, hbound 0xF0 fun heq => ?_⟩,
    hbound 0xF4 fun heq => ?_⟩
  · have hn := hlow heq
    show ¬ 128 + n < 160
    omega
  · have hn := hsurrogate heq
    show ¬ 160 ≤ 128 + n
    omega
  · have hn := hlow' heq
    show ¬ 128 + n < 144
    omega
  · have hn := hhigh heq
    show ¬ 144 ≤ 128 + n
    omega

theorem announced_octet {lead : Nat} (h : lead < 256) :
    announced (UInt8.ofNat lead) =
      if lead < 0x80 then 1
      else if lead < 0xC2 then 0
      else if lead < 0xE0 then 2
      else if lead < 0xF0 then 3
      else if lead < 0xF5 then 4
      else 0 := by
  simp only [announced, UInt8.lt_iff_toNat_lt, toNat_octet h]
  rfl

theorem nextHead_one {n : Nat} (h : n < 0x80) (rest : Octets) :
    nextHead (UInt8.ofNat n) rest = .char (Char.ofNat n) 1 := by
  have hannounced : announced (UInt8.ofNat n) = 1 := by
    rw [announced_octet (by omega), if_pos h]
  rw [nextHead, if_pos hannounced, toNat_octet (by omega)]

theorem nextHead_two {n : Nat} (hlow : 0x80 ≤ n) (hhigh : n < 0x800) (rest : Octets) :
    nextHead (UInt8.ofNat (0xC0 + n / 0x40)) (UInt8.ofNat (0x80 + n % 0x40) :: rest) =
      .char (Char.ofNat n) 2 := by
  have hannounced : announced (UInt8.ofNat (0xC0 + n / 0x40)) = 2 := by
    rw [announced_octet (by omega), if_neg (by omega), if_neg (by omega), if_pos (by omega)]
  have hsecond : isSecond (UInt8.ofNat (0xC0 + n / 0x40)) (UInt8.ofNat (0x80 + n % 0x40)) = true :=
    isSecond_octet (by omega) (by omega) (by omega) (by omega) (by omega) (by omega)
  have hvalue : (0xC0 + n / 0x40) % 0x20 * 0x40 + n % 0x40 = n := by omega
  rw [nextHead, hannounced]
  simp only [headOfTwo, hsecond, if_true, toNat_octet (by omega : 0xC0 + n / 0x40 < 256),
    payload_octet (by omega : n % 0x40 < 0x40), hvalue]
  rfl

theorem nextHead_three {n : Nat} (hlow : 0x800 ≤ n) (hhigh : n < 0x10000)
    (hsurrogate : n < 0xD800 ∨ 0xDFFF < n) (rest : Octets) :
    nextHead (UInt8.ofNat (0xE0 + n / 0x1000))
        (UInt8.ofNat (0x80 + n / 0x40 % 0x40) :: UInt8.ofNat (0x80 + n % 0x40) :: rest) =
      .char (Char.ofNat n) 3 := by
  have hannounced : announced (UInt8.ofNat (0xE0 + n / 0x1000)) = 3 := by
    rw [announced_octet (by omega), if_neg (by omega), if_neg (by omega), if_neg (by omega),
      if_pos (by omega)]
  have hsecond : isSecond (UInt8.ofNat (0xE0 + n / 0x1000))
      (UInt8.ofNat (0x80 + n / 0x40 % 0x40)) = true :=
    isSecond_octet (by omega) (by omega) (by omega) (by omega) (by omega) (by omega)
  have hvalue : ((0xE0 + n / 0x1000) % 0x10 * 0x40 + n / 0x40 % 0x40) * 0x40 + n % 0x40 = n := by
    omega
  rw [nextHead, hannounced]
  simp only [headOfThree, hsecond, if_true, isContinuation_octet (by omega : n % 0x40 < 0x40),
    toNat_octet (by omega : 0xE0 + n / 0x1000 < 256),
    payload_octet (by omega : n / 0x40 % 0x40 < 0x40), payload_octet (by omega : n % 0x40 < 0x40),
    hvalue]
  rfl

theorem nextHead_four {n : Nat} (hlow : 0x10000 ≤ n) (hhigh : n < 0x110000) (rest : Octets) :
    nextHead (UInt8.ofNat (0xF0 + n / 0x40000))
        (UInt8.ofNat (0x80 + n / 0x1000 % 0x40) :: UInt8.ofNat (0x80 + n / 0x40 % 0x40) ::
          UInt8.ofNat (0x80 + n % 0x40) :: rest) =
      .char (Char.ofNat n) 4 := by
  have hannounced : announced (UInt8.ofNat (0xF0 + n / 0x40000)) = 4 := by
    rw [announced_octet (by omega), if_neg (by omega), if_neg (by omega), if_neg (by omega),
      if_neg (by omega), if_pos (by omega)]
  have hsecond : isSecond (UInt8.ofNat (0xF0 + n / 0x40000))
      (UInt8.ofNat (0x80 + n / 0x1000 % 0x40)) = true :=
    isSecond_octet (by omega) (by omega) (by omega) (by omega) (by omega) (by omega)
  have hvalue : (((0xF0 + n / 0x40000) % 0x08 * 0x40 + n / 0x1000 % 0x40) * 0x40 +
      n / 0x40 % 0x40) * 0x40 + n % 0x40 = n := by omega
  rw [nextHead, hannounced]
  simp only [headOfFour, hsecond, if_true, isContinuation_octet (by omega : n % 0x40 < 0x40),
    isContinuation_octet (by omega : n / 0x40 % 0x40 < 0x40),
    toNat_octet (by omega : 0xF0 + n / 0x40000 < 256),
    payload_octet (by omega : n / 0x1000 % 0x40 < 0x40),
    payload_octet (by omega : n / 0x40 % 0x40 < 0x40), payload_octet (by omega : n % 0x40 < 0x40),
    hvalue]
  rfl

/-- The head of a text that begins with a character is that character. -/
theorem nextHead_encodeChar (c : Char) (rest : Octets) :
    ∃ lead more, encodeChar c = lead :: more ∧
      nextHead lead (more ++ rest) = .char c (more.length + 1) := by
  have hvalid : c.toNat < 0xD800 ∨ 0xDFFF < c.toNat ∧ c.toNat < 0x110000 := c.valid
  have hc : Char.ofNat c.toNat = c := Char.ofNat_toNat c
  simp only [encodeChar]
  by_cases hone : c.toNat < 0x80
  · rw [if_pos hone]
    refine ⟨_, _, rfl, ?_⟩
    rw [nextHead_one hone, hc]
    rfl
  rw [if_neg hone]
  by_cases htwo : c.toNat < 0x800
  · rw [if_pos htwo]
    refine ⟨_, _, rfl, ?_⟩
    have hhead := nextHead_two (by omega) htwo rest
    rwa [hc] at hhead
  rw [if_neg htwo]
  by_cases hthree : c.toNat < 0x10000
  · rw [if_pos hthree]
    refine ⟨_, _, rfl, ?_⟩
    have hhead := nextHead_three (by omega) hthree (by omega) rest
    rwa [hc] at hhead
  · rw [if_neg hthree]
    refine ⟨_, _, rfl, ?_⟩
    have hhead := nextHead_four (by omega) (by omega : c.toNat < 0x110000) rest
    rwa [hc] at hhead

theorem decodeAfter_encode (s done : List Char) (start : Nat) :
    decodeAfter done start (encode s) = .ok (done.reverse ++ s) := by
  induction s generalizing done start with
  | nil =>
    rw [encode, List.flatMap_nil, decodeAfter, List.append_nil]
  | cons c s ih =>
    obtain ⟨lead, more, heq, hhead⟩ := nextHead_encodeChar c (encode s)
    have hencode : encode (c :: s) = lead :: (more ++ encode s) := by
      rw [encode, List.flatMap_cons, heq]
      rfl
    have hdrop : (more ++ encode s).drop (more.length + 1 - 1) = encode s := by simp
    rw [hencode, decodeAfter, hhead]
    simp only [hdrop]
    rw [ih]
    simp

/-- Text that is encoded is decoded again. -/
theorem decode_encode (s : List Char) : decode (encode s) = .ok s := by
  rw [decode, decodeAfter_encode]
  rfl

/-- Where strict decoding meets no bad part, lossy decoding replaces nothing. -/
theorem decodeLossyAfter_of_decodeAfter {done : List Char} {start : Nat} {octets : Octets}
    {s : List Char} (h : decodeAfter done start octets = .ok s) :
    decodeLossyAfter done octets = s := by
  fun_induction decodeAfter done start octets with
  | case1 done start =>
    rw [decodeLossyAfter]
    exact Except.ok.inj h
  | case2 done start lead rest c width hhead ih =>
    rw [decodeLossyAfter, hhead]
    exact ih h
  | case3 done start lead rest reason width hhead => cases h

/-- Text that is encoded is decoded again by the decoder that replaces bad parts. -/
theorem decodeLossy_encode (s : List Char) : decodeLossy (encode s) = s :=
  decodeLossyAfter_of_decodeAfter (decode_encode s)

end MarkupTidy.Text.Utf8
