import MarkupTidy.Proofs.Toml.Genuine
import MarkupTidy.Toml.Reader

/-!
Tables that are read hold each key once, and dates and times that exist. Every statement is
refused that would give a key a second value, and so is every day that the calendar does not have.
-/
namespace MarkupTidy.Toml

open Value

theorem readField?_bounds {width low high : Nat} {s rest : List Char} {n : Nat}
    (h : readField? width low high s = some (n, rest)) : low ≤ n ∧ n ≤ high := by
  simp only [readField?] at h
  split at h
  · split at h
    · next hbounds =>
      cases h
      exact hbounds
    · cases h
  · cases h

theorem readFraction_lt (s : List Char) : (readFraction s).1 < 1000000 := by
  have hnone : (0 : Nat) < 1000000 := by omega
  unfold readFraction
  split
  · next rest =>
    simp only
    split
    · exact hnone
    · have hsix : AllDigits ((rest.takeWhile isDecimalDigit).take 6) :=
        fun c hc => List.all_eq_true.1 List.all_takeWhile c (List.mem_of_mem_take hc)
      have hlength : ((rest.takeWhile isDecimalDigit).take 6).length ≤ 6 :=
        List.length_take_le 6 _
      have hpow : 10 ^ ((rest.takeWhile isDecimalDigit).take 6).length *
          10 ^ (6 - ((rest.takeWhile isDecimalDigit).take 6).length) = 1000000 := by
        rw [← Nat.pow_add, Nat.add_sub_cancel' hlength]
      rw [← hpow]
      exact Nat.mul_lt_mul_of_pos_right hsix.digitsToNat_lt (Nat.pow_pos (by omega))
  · exact hnone

theorem readTime?_valid {s rest : List Char} {t : TimeOfDay} (h : readTime? s = some (t, rest)) :
    t.IsValid := by
  simp only [readTime?, Option.bind_eq_bind, Option.bind_eq_some_iff] at h
  obtain ⟨⟨hour, s₁⟩, hhour, s₂, -, ⟨minute, s₃⟩, hminute, s₄, -, ⟨second, s₅⟩, hsecond, h⟩ := h
  cases h
  have hhour := readField?_bounds hhour
  have hminute := readField?_bounds hminute
  have hsecond := readField?_bounds hsecond
  refine ⟨?_, ?_, ?_, readFraction_lt s₅⟩
  · show hour < 24
    omega
  · show minute < 60
    omega
  · show second < 60
    omega

theorem readOffset?_bounds {s rest : List Char} {minutes : Int}
    (h : readOffset? s = some (minutes, rest)) : minutes.natAbs < 1440 := by
  unfold readOffset? at h
  split at h
  · cases h
  · split at h
    · cases h
      decide
    · split at h
      · simp only [Option.bind_eq_bind, Option.bind_eq_some_iff] at h
        obtain ⟨⟨hour, s₁⟩, hhour, s₂, -, ⟨minute, s₃⟩, hminute, h⟩ := h
        have hhour := readField?_bounds hhour
        have hminute := readField?_bounds hminute
        cases h
        split <;> omega
      · cases h

theorem readDate?_parts {s rest : List Char} {d : Date} {time : TimeOfDay} {offset : Option Int}
    (h : readDate? s = some (d, some (time, offset), rest)) :
    time.IsValid ∧ ∀ minutes ∈ offset, minutes.natAbs < 1440 := by
  simp only [readDate?, Option.bind_eq_bind, Option.bind_eq_some_iff] at h
  obtain ⟨⟨year, s₁⟩, -, s₂, -, ⟨month, s₃⟩, -, s₄, -, ⟨day, s₅⟩, -, h⟩ := h
  split at h
  · cases h
  · next found rest' hfound =>
    have htime : found.IsValid := by
      split at hfound
      · split at hfound
        · exact readTime?_valid hfound
        · cases hfound
      · cases hfound
    split at h
    · cases h
      exact ⟨htime, fun minutes hminutes => by cases hminutes⟩
    · next found' rest'' hoffset =>
      cases h
      refine ⟨htime, fun minutes hminutes => ?_⟩
      cases hminutes
      exact readOffset?_bounds hoffset

theorem readBased?_genuine {s rest : List Char} {v : Value} (h : readBased? s = some (v, rest)) :
    v.IsGenuine := by
  unfold readBased? at h
  split at h
  · obtain ⟨digits, -, heq⟩ := Option.map_eq_some_iff.1 h
    cases heq
    trivial
  · obtain ⟨digits, -, heq⟩ := Option.map_eq_some_iff.1 h
    cases heq
    trivial
  · obtain ⟨digits, -, heq⟩ := Option.map_eq_some_iff.1 h
    cases heq
    trivial
  · cases h

theorem readDecimal?_genuine {s rest : List Char} {v : Value}
    (h : readDecimal? s = some (.ok (v, rest))) : v.IsGenuine := by
  simp only [readDecimal?, Option.bind_eq_bind, Option.bind_eq_some_iff] at h
  obtain ⟨⟨whole, afterWhole⟩, -, h⟩ := h
  split at h
  · cases h
    trivial
  · split at h
    · cases h
      trivial
    · split at h
      · cases h
      · cases h
        trivial

theorem readSpecial?_genuine {s rest : List Char} {v : Value}
    (h : readSpecial? s = some (v, rest)) : v.IsGenuine := by
  simp only [readSpecial?] at h
  split at h
  · cases h
    trivial
  · cases h
    trivial
  · cases h

theorem readScalar_genuine {s rest : List Char} {v : Value} (h : readScalar s = .ok (v, rest)) :
    v.IsGenuine := by
  unfold readScalar at h
  split at h
  · cases h
    trivial
  · cases h
    trivial
  split at h
  · next date time behind hdate =>
    split at h
    · cases h
    · next hvalid =>
      have hvalid : date.isValid = true := by simpa using hvalid
      split at h
      · cases h
        exact hvalid
      · next found offset =>
        cases h
        obtain ⟨htime, hoffset⟩ := readDate?_parts hdate
        exact ⟨hvalid, htime, hoffset⟩
  split at h
  · next time behind htime =>
    cases h
    exact readTime?_valid htime
  split at h
  · next found hfound =>
    cases h
    exact readBased?_genuine hfound
  split at h
  · next found hfound =>
    subst h
    exact readDecimal?_genuine hfound
  split at h
  · next found hfound =>
    cases h
    exact readSpecial?_genuine hfound
  · cases h

/-- Whatever keeps tables genuine keeps the root so, wherever it changes it. -/
theorem within_genuine {throughLists : Bool} {change : Table → Except Problem Table}
    (hchange : ∀ table table', TableGenuine table → change table = .ok table' →
      TableGenuine table') (key : Key) :
    ∀ {table table' : Table}, TableGenuine table →
      within throughLists change key table = .ok table' → TableGenuine table' := by
  induction key with
  | nil => exact fun hgenuine h => hchange _ _ hgenuine h
  | cons name rest ih =>
    intro table table' hgenuine h
    rw [within] at h
    split at h
    · obtain ⟨inner, hinner, h⟩ := step_eq_ok h
      cases h
      exact hgenuine.set ((isGenuine_table _).2 (ih .nil hinner)) name
    · next old hlookup =>
      obtain ⟨inner, hinner, h⟩ := step_eq_ok h
      cases h
      have hold := (isGenuine_table _).1 (hgenuine.lookup hlookup)
      exact hgenuine.set ((isGenuine_table _).2 (ih hold hinner)) name
    · next items hlookup =>
      split at h
      · next old hlast =>
        obtain ⟨inner, hinner, h⟩ := step_eq_ok h
        cases h
        have hitems := (isGenuine_list items).1 (hgenuine.lookup hlookup)
        have hold := (isGenuine_table _).1 (hitems _ (List.mem_of_getLast? hlast))
        refine hgenuine.set ((isGenuine_list _).2 fun item hitem => ?_) name
        rcases List.mem_append.1 hitem with hitem | hitem
        · exact hitems item (List.dropLast_subset items hitem)
        · rw [List.mem_singleton.1 hitem]
          exact (isGenuine_table _).2 (ih hold hinner)
      · cases h
    · cases h

theorem addEntry_genuine {name : String} {value : Value} (hvalue : value.IsGenuine)
    (taken : Problem) (table table' : Table) (hgenuine : TableGenuine table)
    (h : addEntry name value taken table = .ok table') : TableGenuine table' := by
  unfold addEntry at h
  split at h
  · cases h
  · next hnew =>
    cases h
    have hlookup : table.lookup name = none := by
      rwa [Bool.not_eq_true, Option.isSome_eq_false_iff, Option.isNone_iff_eq_none] at hnew
    rw [← Pairs.set_of_lookup_none hlookup]
    exact hgenuine.set hvalue name

theorem appendTable_genuine (name : String) (table table' : Table) (hgenuine : TableGenuine table)
    (h : appendTable name table = .ok table') : TableGenuine table' := by
  have hempty : (Value.table []).IsGenuine := (isGenuine_table []).2 .nil
  unfold appendTable at h
  split at h
  · next hlookup =>
    cases h
    rw [← Pairs.set_of_lookup_none hlookup]
    refine hgenuine.set ((isGenuine_list _).2 fun item hitem => ?_) name
    rw [List.mem_singleton.1 hitem]
    exact hempty
  · next items hlookup =>
    cases h
    have hitems := (isGenuine_list items).1 (hgenuine.lookup hlookup)
    refine hgenuine.set ((isGenuine_list _).2 fun item hitem => ?_) name
    rcases List.mem_append.1 hitem with hitem | hitem
    · exact hitems item hitem
    · rw [List.mem_singleton.1 hitem]
      exact hempty
  · cases h

theorem refuseWith_eq_ok {α : Type} {rest : List Char} {result : Except Problem α} {value : α}
    (h : refuseWith rest result = .ok value) : result = .ok value := by
  cases result with
  | error problem => cases h
  | ok found =>
    cases h
    rfl

theorem add_genuine {key : Key} {value : Value} (hvalue : value.IsGenuine) {t t' : InlineTable}
    (hgenuine : TableGenuine t.entries) (h : t.add key value = .ok t') :
    TableGenuine t'.entries := by
  unfold InlineTable.add at h
  split at h
  · cases h
  · obtain ⟨entries, hentries, h⟩ := step_eq_ok h
    cases h
    exact within_genuine (addEntry_genuine hvalue _) key.dropLast hgenuine hentries

theorem addValue_genuine {key : Key} {value : Value} (hvalue : value.IsGenuine) {d d' : Document}
    (hgenuine : TableGenuine d.root) (h : d.addValue key value = .ok d') :
    TableGenuine d'.root := by
  unfold Document.addValue at h
  simp only at h
  split at h
  · cases h
  · split at h
    · cases h
    · obtain ⟨root, hroot, h⟩ := step_eq_ok h
      cases h
      exact within_genuine (addEntry_genuine hvalue _) _ hgenuine hroot

theorem openTable_genuine {key : Key} {d d' : Document} (hgenuine : TableGenuine d.root)
    (h : d.openTable key = .ok d') : TableGenuine d'.root := by
  unfold Document.openTable at h
  split at h
  · cases h
  · obtain ⟨root, hroot, h⟩ := step_eq_ok h
    cases h
    refine within_genuine (fun table table' htable heq => ?_) key hgenuine hroot
    cases heq
    exact htable

theorem openListItem_genuine {key : Key} {d d' : Document} (hgenuine : TableGenuine d.root)
    (h : d.openListItem key = .ok d') : TableGenuine d'.root := by
  unfold Document.openListItem at h
  split at h
  · cases h
  · obtain ⟨root, hroot, h⟩ := step_eq_ok h
    cases h
    exact within_genuine (appendTable_genuine _) _ hgenuine hroot

/-- With this fuel, every value that is read is genuine, and so are its parts. -/
structure ReadsGenuine (fuel : Nat) : Prop where
  value : ∀ (room : Nat) (s : List Char) (v : Value) (rest : List Char),
    readValue fuel room s = .ok (v, rest) → v.IsGenuine
  items : ∀ (room : Nat) (done : List Value) (s : List Char) (v : Value) (rest : List Char),
    (∀ item ∈ done, item.IsGenuine) → readItems fuel room done s = .ok (v, rest) → v.IsGenuine
  members : ∀ (room : Nat) (done : InlineTable) (s : List Char) (v : Value) (rest : List Char),
    TableGenuine done.entries → readMembers fuel room done s = .ok (v, rest) → v.IsGenuine
  entry : ∀ (room : Nat) (s : List Char) (key : Key) (v : Value) (rest : List Char),
    readEntry fuel room s = .ok (key, v, rest) → v.IsGenuine

theorem readValue_genuine {fuel room : Nat} (ih : ReadsGenuine fuel) {s rest : List Char}
    {v : Value} (h : readValue (fuel + 1) room s = .ok (v, rest)) : v.IsGenuine := by
  unfold readValue at h
  split at h
  · obtain ⟨text, -, h⟩ := step_eq_ok h
    cases h
    trivial
  split at h
  · split at h
    · obtain ⟨next, -, h⟩ := step_eq_ok h
      split at h
      · cases h
        exact (isGenuine_list []).2 fun item hitem => by cases hitem
      · exact ih.items _ [] _ v rest (fun item hitem => by cases hitem) h
    · cases h
  · split at h
    · split at h
      · cases h
        exact (isGenuine_table []).2 .nil
      · exact ih.members _ ⟨[], []⟩ _ v rest .nil h
    · cases h
  · exact readScalar_genuine h

theorem readItems_genuine {fuel room : Nat} (ih : ReadsGenuine fuel) {done : List Value}
    {s rest : List Char} {v : Value} (hdone : ∀ item ∈ done, item.IsGenuine)
    (h : readItems (fuel + 1) room done s = .ok (v, rest)) : v.IsGenuine := by
  rw [readItems] at h
  obtain ⟨⟨value, behind⟩, hvalue, h⟩ := step_eq_ok h
  obtain ⟨next, -, h⟩ := step_eq_ok h
  have hmore : ∀ item ∈ value :: done, item.IsGenuine :=
    List.forall_mem_cons.2 ⟨ih.value room s value behind hvalue, hdone⟩
  have hlist : (Value.list (value :: done).reverse).IsGenuine :=
    (isGenuine_list _).2 fun item hitem => hmore item (List.mem_reverse.1 hitem)
  split at h
  · cases h
    exact hlist
  · obtain ⟨next, -, h⟩ := step_eq_ok h
    split at h
    · cases h
      exact hlist
    · exact ih.items room (value :: done) _ v rest hmore h
  · cases h

theorem readMembers_genuine {fuel room : Nat} (ih : ReadsGenuine fuel) {done : InlineTable}
    {s rest : List Char} {v : Value} (hdone : TableGenuine done.entries)
    (h : readMembers (fuel + 1) room done s = .ok (v, rest)) : v.IsGenuine := by
  rw [readMembers] at h
  obtain ⟨⟨key, value, behind⟩, hentry, h⟩ := step_eq_ok h
  obtain ⟨more, hmore, h⟩ := step_eq_ok h
  have hvalue := ih.entry room s key value behind hentry
  have hentries := add_genuine hvalue hdone (refuseWith_eq_ok hmore)
  split at h
  · cases h
    exact (isGenuine_table _).2 hentries
  · exact ih.members room more _ v rest hentries h
  · cases h

theorem readEntry_genuine {fuel room : Nat} (ih : ReadsGenuine fuel) {s rest : List Char}
    {key : Key} {v : Value} (h : readEntry (fuel + 1) room s = .ok (key, v, rest)) :
    v.IsGenuine := by
  rw [readEntry] at h
  obtain ⟨⟨name, behind⟩, -, h⟩ := step_eq_ok h
  simp only at h
  split at h
  · obtain ⟨⟨value, last⟩, hvalue, h⟩ := step_eq_ok h
    cases h
    exact ih.value room _ _ _ hvalue
  · cases h

theorem readsGenuine (fuel : Nat) : ReadsGenuine fuel := by
  induction fuel with
  | zero =>
    refine ⟨?_, ?_, ?_, ?_⟩
    · intro room s v rest h
      cases h
    · intro room done s v rest _ h
      cases h
    · intro room done s v rest _ h
      cases h
    · intro room s key v rest h
      cases h
  | succ fuel ih =>
    exact ⟨fun _ _ _ _ h => readValue_genuine ih h, fun _ _ _ _ _ hdone h =>
      readItems_genuine ih hdone h, fun _ _ _ _ _ hdone h => readMembers_genuine ih hdone h,
      fun _ _ _ _ _ h => readEntry_genuine ih h⟩

theorem readStatement_genuine {d d' : Document} {s rest : List Char}
    (hgenuine : TableGenuine d.root) (h : readStatement d s = .ok (d', rest)) :
    TableGenuine d'.root := by
  have hclosed : TableGenuine d.closeSection.root := hgenuine
  unfold readStatement at h
  split at h
  · cases h
    exact hgenuine
  · obtain ⟨⟨opened, behind⟩, hheader, h⟩ := step_eq_ok h
    cases h
    rw [readListHeader] at hheader
    obtain ⟨⟨key, next⟩, -, hheader⟩ := step_eq_ok hheader
    obtain ⟨found, hopen, hheader⟩ := step_eq_ok hheader
    split at hheader
    · cases hheader
      exact openListItem_genuine hclosed (refuseWith_eq_ok hopen)
    · cases hheader
  · obtain ⟨⟨opened, behind⟩, hheader, h⟩ := step_eq_ok h
    cases h
    rw [readTableHeader] at hheader
    obtain ⟨⟨key, next⟩, -, hheader⟩ := step_eq_ok hheader
    obtain ⟨found, hopen, hheader⟩ := step_eq_ok hheader
    split at hheader
    · cases hheader
      exact openTable_genuine hclosed (refuseWith_eq_ok hopen)
    · cases hheader
  · split at h
    · obtain ⟨⟨key, value, behind⟩, hentry, h⟩ := step_eq_ok h
      obtain ⟨found, hadd, h⟩ := step_eq_ok h
      cases h
      have hvalue := (readsGenuine _).entry _ _ _ _ _ hentry
      exact addValue_genuine hvalue hgenuine (refuseWith_eq_ok hadd)
    · split at h
      · cases h
        exact hgenuine
      · cases h

theorem readStatements_genuine (fuel : Nat) : ∀ {d d' : Document} {s : List Char},
    TableGenuine d.root → readStatements fuel d s = .ok d' → TableGenuine d'.root := by
  induction fuel with
  | zero =>
    intro d d' s hgenuine h
    cases h
    exact hgenuine
  | succ fuel ih =>
    intro d d' s hgenuine h
    rw [readStatements] at h
    split at h
    · cases h
      exact hgenuine
    · exact ih hgenuine h
    · obtain ⟨⟨next, behind⟩, hstatement, h⟩ := step_eq_ok h
      have hnext := readStatement_genuine hgenuine hstatement
      obtain ⟨rest, -, h⟩ := step_eq_ok h
      split at h
      · cases h
        exact hnext
      · exact ih hnext h
      · cases h

/-- A document that is accepted has genuine tables. -/
theorem read_genuine {text : List Char} {table : Table} (h : read text = .ok table) :
    TableGenuine table := by
  rw [read, readLines] at h
  cases hread : readStatements ((Text.joinLineEnds text).length + 1) Document.empty
      (Text.joinLineEnds text) with
  | error fault =>
    rw [hread] at h
    cases h
  | ok d =>
    rw [hread] at h
    cases h
    exact readStatements_genuine _ .nil hread

end MarkupTidy.Toml
