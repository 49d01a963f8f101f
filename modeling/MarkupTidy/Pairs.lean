/-!
Lists of values in order, each under a key. Setting a key that is there already changes its value
in place, so a list collected from pairs holds each key once, at its first place and with its last
value.
-/
namespace MarkupTidy.Pairs

variable {κ α : Type} [BEq κ]

/-- Give `key` the value `value`. -/
def set (key : κ) (value : α) : List (κ × α) → List (κ × α)
  | [] => [(key, value)]
  | (k, v) :: rest => if k == key then (key, value) :: rest else (k, v) :: set key value rest

/-- Collect pairs into a list without repeated keys. -/
def collect (pairs : List (κ × α)) : List (κ × α) :=
  pairs.foldl (fun done pair => set pair.1 pair.2 done) []

variable [LawfulBEq κ] [DecidableEq κ]

theorem map_fst_set (key : κ) (value : α) (pairs : List (κ × α)) :
    (set key value pairs).map Prod.fst =
      if key ∈ pairs.map Prod.fst then pairs.map Prod.fst else pairs.map Prod.fst ++ [key] := by
  induction pairs with
  | nil => simp [set]
  | cons pair rest ih =>
    obtain ⟨k, v⟩ := pair
    by_cases h : k = key
    · simp [set, h]
    · have h' : ¬key = k := fun e => h e.symm
      simp only [set, beq_eq_false_iff_ne.2 h, Bool.false_eq_true, if_false, List.map_cons, ih,
        List.mem_cons, h', false_or]
      split <;> simp

omit [LawfulBEq κ] [DecidableEq κ] in
theorem mem_set {key : κ} {value : α} {pairs : List (κ × α)} {pair : κ × α}
    (h : pair ∈ set key value pairs) : pair ∈ pairs ∨ pair = (key, value) := by
  induction pairs with
  | nil => exact Or.inr (List.mem_singleton.1 h)
  | cons first rest ih =>
    obtain ⟨k, v⟩ := first
    simp only [set] at h
    split at h
    · rcases List.mem_cons.1 h with rfl | h
      · exact Or.inr rfl
      · exact Or.inl (List.mem_cons_of_mem _ h)
    · rcases List.mem_cons.1 h with rfl | h
      · exact Or.inl List.mem_cons_self
      · exact (ih h).imp_left (List.mem_cons_of_mem _)

omit [LawfulBEq κ] [DecidableEq κ] in
theorem mem_set_self (key : κ) (value : α) (pairs : List (κ × α)) :
    (key, value) ∈ set key value pairs := by
  induction pairs with
  | nil => exact List.mem_singleton_self _
  | cons pair rest ih =>
    rw [set]
    split
    · exact List.mem_cons_self
    · exact List.mem_cons_of_mem _ ih

omit [DecidableEq κ] in
theorem mem_set_of_ne {key : κ} {pairs : List (κ × α)} {pair : κ × α}
    (h : pair ∈ pairs) (hkey : pair.1 ≠ key) (value : α) : pair ∈ set key value pairs := by
  induction pairs with
  | nil => cases h
  | cons first rest ih =>
    rw [set]
    rcases List.mem_cons.1 h with rfl | hrest
    · rw [if_neg (by simpa using hkey)]
      exact List.mem_cons_self
    · split
      · exact List.mem_cons_of_mem _ hrest
      · exact List.mem_cons_of_mem _ (ih hrest)

theorem nodup_set {key : κ} {value : α} {pairs : List (κ × α)}
    (h : (pairs.map Prod.fst).Nodup) : ((set key value pairs).map Prod.fst).Nodup := by
  rw [map_fst_set]
  split
  · exact h
  · rename_i hk
    exact List.nodup_append.2 ⟨h, by simp, by rintro a ha b hb rfl; simp_all⟩

theorem lookup_set (key k : κ) (value : α) (pairs : List (κ × α)) :
    (set key value pairs).lookup k = if k = key then some value else pairs.lookup k := by
  induction pairs with
  | nil =>
    by_cases h : k = key
    · simp [set, h]
    · simp [set, List.lookup_cons, beq_eq_false_iff_ne.2 h, h]
  | cons pair rest ih =>
    obtain ⟨a, v⟩ := pair
    by_cases ha : a = key
    · subst ha
      by_cases h : k = a
      · simp [set, h]
      · simp [set, List.lookup_cons, beq_eq_false_iff_ne.2 h, h]
    · by_cases hk : k = a
      · subst hk
        simp [set, ha]
      · simp only [set, beq_eq_false_iff_ne.2 ha, Bool.false_eq_true, if_false, List.lookup_cons,
          beq_eq_false_iff_ne.2 hk, ih]

omit [DecidableEq κ] in
/-- Of two values given to a key the later one stays. -/
theorem set_set (key : κ) (first second : α) (pairs : List (κ × α)) :
    set key second (set key first pairs) = set key second pairs := by
  induction pairs with
  | nil => simp [set]
  | cons pair rest ih =>
    obtain ⟨k, v⟩ := pair
    by_cases hk : k = key
    · simp [set, hk]
    · simp [set, hk, ih]

omit [DecidableEq κ] in
/-- Giving a key the value that it has changes nothing. -/
theorem set_of_lookup {key : κ} {value : α} {pairs : List (κ × α)}
    (h : pairs.lookup key = some value) : set key value pairs = pairs := by
  induction pairs with
  | nil => cases h
  | cons pair rest ih =>
    obtain ⟨k, v⟩ := pair
    by_cases hk : key = k
    · subst hk
      simp only [List.lookup_cons_self, Option.some.injEq] at h
      simp [set, h]
    · have hk' : (k == key) = false := beq_eq_false_iff_ne.2 fun e => hk e.symm
      simp only [List.lookup_cons, beq_eq_false_iff_ne.2 hk] at h
      simp [set, hk', ih h]

private theorem nodup_foldl_set (pairs : List (κ × α)) :
    ∀ done : List (κ × α), (done.map Prod.fst).Nodup →
      ((pairs.foldl (fun done pair => set pair.1 pair.2 done) done).map Prod.fst).Nodup := by
  induction pairs with
  | nil => exact fun _ h => h
  | cons pair rest ih => exact fun done h => ih _ (nodup_set h)

theorem nodup_collect (pairs : List (κ × α)) :
    ((collect pairs).map Prod.fst).Nodup :=
  nodup_foldl_set pairs [] List.nodup_nil

omit [DecidableEq κ] in
theorem set_of_notMem {key : κ} {value : α} {pairs : List (κ × α)}
    (h : key ∉ pairs.map Prod.fst) : set key value pairs = pairs ++ [(key, value)] := by
  induction pairs with
  | nil => rfl
  | cons pair rest ih =>
    obtain ⟨k, v⟩ := pair
    simp only [List.map_cons, List.mem_cons, not_or] at h
    have hk : (k == key) = false := beq_eq_false_iff_ne.2 fun e => h.1 e.symm
    simp [set, hk, ih h.2]

omit [DecidableEq κ] in
theorem lookup_eq_none {key : κ} {pairs : List (κ × α)} :
    pairs.lookup key = none ↔ key ∉ pairs.map Prod.fst := by
  rw [List.lookup_eq_none_iff, List.mem_map]
  constructor
  · rintro h ⟨pair, hpair, rfl⟩
    have hne := h pair hpair
    simp at hne
  · intro h pair hpair
    have hne : key ≠ pair.1 := fun e => h ⟨pair, hpair, e.symm⟩
    simpa using hne

omit [DecidableEq κ] in
theorem mem_of_lookup {key : κ} {value : α} {pairs : List (κ × α)}
    (h : pairs.lookup key = some value) : (key, value) ∈ pairs := by
  obtain ⟨before, after, hpairs, -⟩ := List.lookup_eq_some_iff.1 h
  simp [hpairs]

omit [DecidableEq κ] in
theorem set_of_lookup_none {key : κ} {value : α} {pairs : List (κ × α)}
    (h : pairs.lookup key = none) : set key value pairs = pairs ++ [(key, value)] :=
  set_of_notMem (lookup_eq_none.1 h)

omit [DecidableEq κ] in
/-- In a list that holds each key once, looking a key up and keeping some pairs commute. -/
theorem lookup_filter (keep : κ × α → Bool) {pairs : List (κ × α)}
    (h : (pairs.map Prod.fst).Nodup) (key : κ) :
    (pairs.filter keep).lookup key = (pairs.lookup key).filter fun value => keep (key, value) := by
  induction pairs with
  | nil => rfl
  | cons pair rest ih =>
    obtain ⟨k, v⟩ := pair
    obtain ⟨hnew, hrest⟩ := List.nodup_cons.1 h
    by_cases hk : key = k
    · subst hk
      have hnone : rest.lookup key = none := lookup_eq_none.2 hnew
      by_cases hkeep : keep (key, v) = true
      · simp [hkeep, Option.filter]
      · simp [hkeep, ih hrest, hnone, Option.filter]
    · have hbeq : (key == k) = false := beq_eq_false_iff_ne.2 hk
      rw [List.filter_cons, List.lookup_cons, hbeq]
      split
      · rw [List.lookup_cons, hbeq]
        exact ih hrest
      · exact ih hrest

omit [DecidableEq κ] in
/-- Of pairs that are kept for their keys, those with a key are kept all or none. -/
theorem lookup_filter_key (keep : κ → Bool) (pairs : List (κ × α)) (key : κ) :
    (pairs.filter fun pair => keep pair.1).lookup key =
      if keep key then pairs.lookup key else none := by
  induction pairs with
  | nil => simp
  | cons pair rest ih =>
    obtain ⟨k, v⟩ := pair
    by_cases hk : key = k
    · subst hk
      cases hkeep : keep key <;> simp [hkeep, ih]
    · have hbeq : (key == k) = false := beq_eq_false_iff_ne.2 hk
      cases hkeep : keep k <;> simp [hkeep, ih, List.lookup_cons, hbeq]

omit [DecidableEq κ] in
/-- Pairs without repeated keys are collected as they are. -/
theorem collect_of_nodup {pairs : List (κ × α)} (h : (pairs.map Prod.fst).Nodup) :
    collect pairs = pairs := by
  have collected : ∀ rest done : List (κ × α), ((done ++ rest).map Prod.fst).Nodup →
      rest.foldl (fun done pair => set pair.1 pair.2 done) done = done ++ rest := by
    intro rest
    induction rest with
    | nil => simp
    | cons pair rest ih =>
      intro done hdone
      have hfresh : pair.1 ∉ done.map Prod.fst := by
        simp only [List.map_append, List.map_cons, List.nodup_append, List.mem_cons] at hdone
        exact fun hmem => hdone.2.2 _ hmem _ (Or.inl rfl) rfl
      have hjoin : done ++ [(pair.1, pair.2)] ++ rest = done ++ pair :: rest := by simp
      rw [List.foldl_cons, set_of_notMem hfresh, ih _ (by rwa [hjoin]), hjoin]
  simpa [collect] using collected pairs [] h

end MarkupTidy.Pairs
