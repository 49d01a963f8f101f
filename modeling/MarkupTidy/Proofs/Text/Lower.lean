import MarkupTidy.Text.Lower

/-!
Small letters stay what they are: no character that a case mapping gives is mapped again, and the
two that depend on more than the character itself give small letters too. So a text in small letters
is its own small form.
-/
namespace MarkupTidy.Text

namespace CaseRun

theorem moves_iff (run : CaseRun) (code image : Nat) :
    run.apply? code = some image ↔
      (run.first ≤ code ∧ code ≤ run.last ∧ (code - run.first) % run.stride = 0) ∧
        run.target + (code - run.first) = image := by
  unfold CaseRun.apply?
  split <;> simp_all

/-- Each character of a run, or every other one, is mapped to a character that is no `İ`. -/
def isRegular (run : CaseRun) : Bool :=
  let stop := run.target + (run.last - run.first)
  (run.stride == 1 || run.stride == 2) &&
    (stop < 0xD800 || 0xDFFF < run.target && stop < 0x110000) &&
    (stop < 0x130 || 0x130 < run.target)

/-- What a run maps characters to lies beside the characters of another run, or between them. -/
def avoids (run other : CaseRun) : Bool :=
  (run.target + (run.last - run.first)).blt other.first || other.last.blt run.target ||
    (run.last == run.first || run.stride % other.stride == 0) &&
      (run.target + other.first) % other.stride != 0

variable {run other : CaseRun} {code image : Nat}

theorem isRegular_image (hrun : run.isRegular = true) (h : run.apply? code = some image) :
    image.isValidChar ∧ image ≠ 0x130 := by
  obtain ⟨⟨hfirst, hlast, -⟩, rfl⟩ := (moves_iff ..).1 h
  simp only [isRegular, Bool.and_eq_true, Bool.or_eq_true, decide_eq_true_eq] at hrun
  obtain ⟨⟨-, hvalid⟩, hother⟩ := hrun
  refine ⟨?_, by omega⟩
  rcases hvalid with hlow | ⟨hhigh, hbound⟩
  · exact Or.inl (by omega)
  · exact Or.inr ⟨by omega, by omega⟩

/-- A character that a run gives is not moved by a run that it avoids. -/
theorem unmoved_of_avoids (hrun : run.isRegular = true) (hother : other.isRegular = true)
    (h : run.avoids other = true) (himage : run.apply? code = some image) :
    other.apply? image = none := by
  obtain ⟨⟨hfirst, hlast, hstep⟩, rfl⟩ := (moves_iff ..).1 himage
  refine Option.eq_none_iff_forall_ne_some.2 fun moved hmoved => ?_
  obtain ⟨⟨hfrom, hto, hparity⟩, -⟩ := (moves_iff ..).1 hmoved
  simp only [isRegular, Bool.and_eq_true, Bool.or_eq_true, beq_iff_eq] at hrun hother
  simp only [avoids, Bool.or_eq_true, Bool.and_eq_true, Nat.blt_eq, beq_iff_eq, bne_iff_ne] at h
  obtain ⟨⟨hstride, -⟩, -⟩ := hrun
  obtain ⟨⟨hstride', -⟩, -⟩ := hother
  rcases hstride with hstride | hstride <;> rcases hstride' with hstride' | hstride' <;>
    rw [hstride] at h hstep <;> rw [hstride'] at h hparity <;> omega

end CaseRun

theorem isRegular_lowerRuns : ∀ run ∈ lowerRuns, run.isRegular = true := by
  decide +kernel

theorem all_avoid_lowerRuns : (lowerRuns.all fun run => lowerRuns.all run.avoids) = true := by
  decide +kernel

theorem avoids_lowerRuns {run other : CaseRun} (hrun : run ∈ lowerRuns)
    (hother : other ∈ lowerRuns) : run.avoids other = true :=
  List.all_eq_true.1 (List.all_eq_true.1 all_avoid_lowerRuns run hrun) other hother

/-- The character is its own small form, and not the one with a small form of two characters. -/
def IsSmall (c : Char) : Prop := lowerChar c = c ∧ c ≠ 'İ'

instance (c : Char) : Decidable (IsSmall c) := inferInstanceAs (Decidable (_ ∧ _))

/-- The capital letters of ASCII. -/
def capitalRun : CaseRun := ⟨0x41, 0x5A, 1, 0x61⟩

theorem capitalRun_mem : capitalRun ∈ lowerRuns := List.mem_cons_self

theorem capitalRun_moves {c : Char} (h : 'A' ≤ c ∧ c ≤ 'Z') :
    capitalRun.apply? c.toNat = some (c.toNat + 32) := by
  have hfirst : 0x41 ≤ c.toNat := h.1
  have hlast : c.toNat ≤ 0x5A := h.2
  simp only [ CaseRun.apply?, capitalRun, hfirst, hlast, Nat.mod_one, and_self, if_true,
    Option.some.injEq]
  omega

theorem lowerChar_of_unmoved {c : Char} (h : ∀ run ∈ lowerRuns, run.apply? c.toNat = none) :
    lowerChar c = c := by
  unfold lowerChar
  split
  · refine if_neg fun hcapital => ?_
    cases (h capitalRun capitalRun_mem).symm.trans (capitalRun_moves hcapital)
  · rw [CaseRun.applyAll, List.findSome?_eq_none_iff.2 h]
    rfl

/-- A character is its own small form, or a run moves it to its small form. -/
theorem lowerChar_cases (c : Char) :
    lowerChar c = c ∨
      ∃ run ∈ lowerRuns, ∃ image, run.apply? c.toNat = some image ∧ lowerChar c = .ofNat image := by
  unfold lowerChar
  split
  · split
    · next hcapital =>
      exact Or.inr ⟨capitalRun, capitalRun_mem, _, capitalRun_moves hcapital, rfl⟩
    · exact Or.inl rfl
  · rw [CaseRun.applyAll]
    cases hmoved : lowerRuns.findSome? fun run => run.apply? c.toNat with
    | none => exact Or.inl rfl
    | some image =>
      obtain ⟨run, hrun, himage⟩ := List.exists_of_findSome?_eq_some hmoved
      exact Or.inr ⟨run, hrun, image, himage, rfl⟩

theorem code_ofNat {n : Nat} (h : n.isValidChar) : (Char.ofNat n).toNat = n := by
  rw [Char.ofNat, dif_pos h]
  rfl

theorem isSmall_lowerChar {c : Char} (hc : c ≠ 'İ') : IsSmall (lowerChar c) := by
  rcases lowerChar_cases c with hself | ⟨run, hrun, image, himage, hlower⟩
  · rw [hself]
    exact ⟨hself, hc⟩
  · obtain ⟨hvalid, hother⟩ := CaseRun.isRegular_image (isRegular_lowerRuns run hrun) himage
    have hcode := code_ofNat hvalid
    rw [hlower]
    refine ⟨lowerChar_of_unmoved fun other hmem => ?_, fun heq => hother ?_⟩
    · rw [hcode]
      exact CaseRun.unmoved_of_avoids (isRegular_lowerRuns run hrun)
        (isRegular_lowerRuns other hmem) (avoids_lowerRuns hrun hmem) himage
    · rw [← hcode, heq]
      rfl

/-- The small form of a text has no other small letters. -/
theorem isSmall_of_mem_lowerAfter {before s : List Char} {c : Char} (h : c ∈ lowerAfter before s) :
    IsSmall c := by
  induction s generalizing before with
  | nil => cases h
  | cons d rest ih =>
    rw [lowerAfter] at h
    rcases List.mem_append.1 h with hfirst | hrest
    · split at hfirst
      · split at hfirst <;> rw [List.mem_singleton.1 hfirst] <;> decide
      · split at hfirst
        · rcases List.mem_cons.1 hfirst with rfl | hmark
          · decide
          · rw [List.mem_singleton.1 hmark]
            decide
        · next hdot =>
          rw [List.mem_singleton.1 hfirst]
          exact isSmall_lowerChar hdot
    · exact ih hrest

/-- Where no character depends on those around it, each has its small form. -/
theorem lowerAfter_eq_map {s : List Char} (h : ∀ c ∈ s, c ≠ 'Σ' ∧ c ≠ 'İ') (before : List Char) :
    lowerAfter before s = s.map lowerChar := by
  induction s generalizing before with
  | nil => rfl
  | cons c rest ih =>
    obtain ⟨⟨hsigma, hdot⟩, hrest⟩ := List.forall_mem_cons.1 h
    rw [lowerAfter, if_neg hsigma, if_neg hdot, ih hrest]
    rfl

theorem lower_eq_map {s : List Char} (h : ∀ c ∈ s, c ≠ 'Σ' ∧ c ≠ 'İ') :
    lower s = s.map lowerChar :=
  lowerAfter_eq_map h []

theorem IsSmall.ne_sigma {c : Char} (h : IsSmall c) : c ≠ 'Σ' := by
  rintro rfl
  revert h
  decide

theorem IsSmall.isUpper {c : Char} (h : IsSmall c) : c.isUpper = false := by
  rw [← Bool.not_eq_true]
  intro hcapital
  obtain ⟨hfrom, hto⟩ : 'A' ≤ c ∧ c ≤ 'Z' := of_decide_eq_true hcapital
  have hfirst : 0x41 ≤ c.toNat := hfrom
  have hlast : c.toNat ≤ 0x5A := hto
  have hlower := congrArg Char.toNat h.1
  rw [lowerChar, if_pos (by omega), if_pos ⟨hfrom, hto⟩,
    code_ofNat (Or.inl (by omega))] at hlower
  omega

/-- A text in small letters is its own small form. -/
theorem lower_of_small {s : List Char} (h : ∀ c ∈ s, IsSmall c) : lower s = s := by
  rw [lower_eq_map fun c hc => ⟨(h c hc).ne_sigma, (h c hc).2⟩]
  exact (List.map_congr_left fun c hc => (h c hc).1).trans (List.map_id' s)

end MarkupTidy.Text
