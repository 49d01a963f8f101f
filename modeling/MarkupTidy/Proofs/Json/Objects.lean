import MarkupTidy.Json.Reader
import Mathlib.Tactic.SplitIfs

/-!
Objects in JSON texts. What is read of an object has each name once, so an object is an option map
as it stands.
-/
namespace MarkupTidy.Json

/-- No name comes twice in a value that is an object. -/
def HasDistinctNames (value : Value) : Prop :=
  ∀ entries, value = .table entries → (entries.map Prod.fst).Nodup

theorem hasDistinctNames_readNumber {s rest : List Char} {value : Value}
    (h : readNumber s = .ok (value, rest)) : HasDistinctNames value := by
  rintro entries rfl
  revert h
  fun_cases readNumber s <;> simp [refuse, *]

theorem hasDistinctNames_readScalar {s rest : List Char} {value : Value}
    (h : readScalar s = .ok (value, rest)) : HasDistinctNames value := by
  rintro entries rfl
  revert h
  fun_cases readScalar s
  case case7 => exact fun h => hasDistinctNames_readNumber h entries rfl
  all_goals simp

theorem hasDistinctNames_readItems (fuel depth : Nat) (done : List Value) {s rest : List Char}
    {value : Value} (h : readItems fuel depth done s = .ok (value, rest)) :
    HasDistinctNames value := by
  induction fuel generalizing done s with
  | zero => simp [readItems, refuse] at h
  | succ fuel ih =>
    simp only [readItems, bind, Except.bind] at h
    split at h
    · cases h
    · split at h
      · cases h
        rintro entries ⟨⟩
      · exact ih _ h
      · simp [refuse] at h

theorem hasDistinctNames_readMembers (fuel depth : Nat) {done : List (String × Value)}
    {s rest : List Char} {value : Value} (hdone : (done.map Prod.fst).Nodup)
    (h : readMembers fuel depth done s = .ok (value, rest)) : HasDistinctNames value := by
  induction fuel generalizing done s with
  | zero => simp [readMembers, refuse] at h
  | succ fuel ih =>
    simp only [readMembers, bind, Except.bind] at h
    split at h
    · split at h
      · cases h
      · split at h
        · split at h
          · cases h
          · have hset (name : String) (member : Value) :
                ((Pairs.set name member done).map Prod.fst).Nodup := Pairs.nodup_set hdone
            split at h
            · cases h
              rintro entries ⟨⟩
              exact hset _ _
            · exact ih (hset _ _) h
            · simp [refuse] at h
        · simp [refuse] at h
    · simp [refuse] at h

theorem hasDistinctNames_readValue (fuel depth : Nat) {s rest : List Char} {value : Value}
    (h : readValue fuel depth s = .ok (value, rest)) : HasDistinctNames value := by
  cases fuel with
  | zero => simp [readValue, refuse] at h
  | succ fuel =>
    simp only [readValue, bind, Except.bind] at h
    split at h
    · split at h <;> cases h
      rintro entries ⟨⟩
    · split at h
      · cases h
      · split at h
        · cases h
          rintro entries ⟨⟩
          exact List.nodup_nil
        · have hnone : (([] : List (String × Value)).map Prod.fst).Nodup := List.nodup_nil
          exact hasDistinctNames_readMembers fuel _ hnone h
    · split at h
      · cases h
      · split at h
        · cases h
          rintro entries ⟨⟩
        · exact hasDistinctNames_readItems fuel _ [] h
    · exact hasDistinctNames_readScalar h

/-- An object that was read has each name once. -/
theorem nodup_read {text : String} {entries : List (String × Value)}
    (h : read text = .ok (.table entries)) : (entries.map Prod.fst).Nodup := by
  have hread : readText text.toList = .ok (.table entries) := by
    unfold read at h
    cases hresult : readText text.toList with
    | error fault => simp [hresult, Except.mapError] at h
    | ok value => simpa [hresult, Except.mapError] using h
  simp only [readText, bind, Except.bind] at hread
  split_ifs at hread
  split at hread
  · cases hread
  · next result hvalue =>
    obtain ⟨value, rest⟩ := result
    simp only at hread
    split at hread
    · cases hread
      exact hasDistinctNames_readValue _ _ hvalue entries rfl
    · cases hread

end MarkupTidy.Json
