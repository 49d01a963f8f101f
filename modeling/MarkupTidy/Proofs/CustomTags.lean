import MarkupTidy.Proofs.Options.TagList
import MarkupTidy.Proofs.Text.Trimmed

/-!
Where the names of custom elements stand in a text. A name is looked for at the start of the text
and behind each `<`. Cutting the text at these characters, trimming the pieces and listing what is
new finds exactly the names that stand at such a place, in the order of their first places. Nothing
asks whether a `<` opens the first piece, so a word with a hyphen at the start of a text is listed
although no element has that name.
-/
namespace MarkupTidy.CustomTags

/-- A name is looked for at the start of a text and right behind each `<`. -/
def Opens (text : List Char) (place : Nat) : Prop := place = 0 ∨ text[place - 1]? = some '<'

/-- What stands at a place behind white space, up to white space, `>`, `/` or `<`. -/
def runAt (text : List Char) (place : Nat) : List Char :=
  ((text.drop place).dropWhile Text.isBlank).takeWhile fun c => !endsName c && c != '<'

/-- The name of a custom element stands at a place where one is looked for. -/
structure StandsAt (text : List Char) (place : Nat) (name : List Char) : Prop where
  opens : Opens text place
  run : runAt text place = name
  first : name.head? ≠ some '!' ∧ name.head? ≠ some '-'
  hyphen : '-' ∈ name

/-- A name stands at a place before all places of the other. -/
def ComesFirst (text earlier later : List Char) : Prop :=
  ∃ place, StandsAt text place earlier ∧ ∀ other, StandsAt text other later → place < other

/-- The name stands behind a `<` and white space. -/
def IsElementName (text name : List Char) : Prop :=
  ∃ before blanks after, text = before ++ '<' :: (blanks ++ name ++ after) ∧
    ∀ c ∈ blanks, Text.isBlank c = true

/-! Names in one piece. -/

theorem nameOf?_eq_some_iff (piece name : List Char) :
    nameOf? piece = some name ↔
      (piece.dropWhile Text.isBlank).takeWhile (fun c => !endsName c) = name ∧
        name.head? ≠ some '!' ∧ isCustom name = true := by
  have hrun : (Text.trim piece).takeWhile (fun c => !endsName c) =
      (piece.dropWhile Text.isBlank).takeWhile fun c => !endsName c :=
    Text.takeWhile_dropEnd (fun c hc => by simp [endsName, hc]) _
  have hfirst : (Text.trim piece).head? = some '!' ↔
      ((Text.trim piece).takeWhile fun c => !endsName c).head? = some '!' := by
    have hmark : endsName '!' = false := by decide
    rw [List.head?_takeWhile, Option.filter_eq_some_iff]
    simp [hmark]
  simp only [nameOf?, hfirst, hrun]
  constructor
  · intro h
    split at h
    · cases h
    · next hplain =>
      obtain ⟨hcustom, hname⟩ := Option.ite_none_right_eq_some.1 h
      obtain rfl := Option.some.inj hname
      exact ⟨rfl, hplain, hcustom⟩
  · intro h
    obtain ⟨hname, hplain, hcustom⟩ := h
    rw [hname, if_neg hplain, if_pos hcustom]

theorem runAt_zero {s : List Char} (h : '<' ∉ s) :
    runAt s 0 = (s.dropWhile Text.isBlank).takeWhile fun c => !endsName c := by
  have hall : (s.dropWhile Text.isBlank).takeWhile (fun c => c != '<') =
      s.dropWhile Text.isBlank := by
    refine List.takeWhile_eq_self_iff.2 fun c hc => ?_
    have hne : c ≠ '<' := fun heq => h (heq ▸ (List.dropWhile_suffix _).subset hc)
    simp [hne]
  have hboth := List.takeWhile_takeWhile (fun c => !endsName c) (fun c => c != '<')
    (s.dropWhile Text.isBlank)
  rw [hall] at hboth
  rw [hboth, runAt, List.drop_zero]
  congr 1
  funext c
  rw [Bool.decide_and, Bool.decide_coe, Bool.decide_coe]

theorem place_eq_zero {s : List Char} (h : '<' ∉ s) {place : Nat} (hopens : Opens s place) :
    place = 0 := by
  rcases hopens with hzero | hbehind
  · exact hzero
  · exact absurd (List.mem_of_getElem? hbehind) h

/-- In a text without a `<` a name can only stand at the start. -/
theorem standsAt_plain_iff {s : List Char} (h : '<' ∉ s) (place : Nat) (name : List Char) :
    StandsAt s place name ↔ place = 0 ∧ nameOf? s = some name := by
  rw [nameOf?_eq_some_iff, ← runAt_zero h, isCustom, Bool.and_eq_true, bne_iff_ne,
    List.contains_iff_mem]
  constructor
  · intro hstands
    obtain rfl := place_eq_zero h hstands.opens
    exact ⟨rfl, hstands.run, hstands.first.1, hstands.first.2, hstands.hyphen⟩
  · intro hname
    obtain ⟨rfl, hrun, hmark, hdash, hhyphen⟩ := hname
    exact ⟨Or.inl rfl, hrun, ⟨hmark, hdash⟩, hhyphen⟩

theorem find_plain {s : List Char} (h : '<' ∉ s) : find s = (nameOf? s).toList := by
  rw [find, Text.pieces_of_notMem h]
  cases hname : nameOf? s <;> simp [hname, addNew]

/-! Texts that are cut at a `<`. -/

theorem Opens.le {text : List Char} {place : Nat} (h : Opens text place) :
    place ≤ text.length := by
  rcases h with hzero | hbehind
  · omega
  · obtain ⟨hlt, -⟩ := List.getElem?_eq_some_iff.1 hbehind
    omega

theorem runAt_front (front behind : List Char) {place : Nat} (h : place ≤ front.length) :
    runAt (front ++ '<' :: behind) place = runAt front place := by
  have hblank : Text.isBlank '<' = false := by decide
  have hstops : Text.Stops (fun c => !endsName c && c != '<') ('<' :: behind) :=
    Text.stops_cons (by decide)
  rw [runAt, List.drop_append_of_le_length h, (Text.stops_cons hblank).dropWhile_append,
    hstops.takeWhile_append, runAt]

theorem runAt_behind (front behind : List Char) (place : Nat) :
    runAt (front ++ '<' :: behind) (front.length + 1 + place) = runAt behind place := by
  have hdrop : (front ++ '<' :: behind).drop (front.length + 1 + place) = behind.drop place := by
    rw [Nat.add_assoc, List.drop_append, Nat.add_comm 1]
    simp
  rw [runAt, hdrop, runAt]

theorem opens_front_iff (front behind : List Char) {place : Nat} (h : place ≤ front.length) :
    Opens (front ++ '<' :: behind) place ↔ Opens front place := by
  by_cases hzero : place = 0
  · simp [Opens, hzero]
  · have hlt : place - 1 < front.length := by omega
    rw [Opens, Opens, List.getElem?_append_left hlt]

theorem opens_behind_iff (front behind : List Char) (place : Nat) :
    Opens (front ++ '<' :: behind) (front.length + 1 + place) ↔ Opens behind place := by
  have hindex : front.length + 1 + place - 1 = front.length + place := by omega
  rw [Opens, Opens, hindex, List.getElem?_append_right (by omega), Nat.add_sub_cancel_left]
  cases place with
  | zero => simp
  | succ place => simp

/-- A name stands in front of a `<`, or behind it. -/
theorem standsAt_append_iff (front behind : List Char) (place : Nat) (name : List Char) :
    StandsAt (front ++ '<' :: behind) place name ↔
      StandsAt front place name ∨
        ∃ later, place = front.length + 1 + later ∧ StandsAt behind later name := by
  constructor
  · intro h
    by_cases hle : place ≤ front.length
    · exact Or.inl ⟨(opens_front_iff front behind hle).1 h.opens,
        (runAt_front front behind hle).symm.trans h.run, h.first, h.hyphen⟩
    · obtain ⟨later, rfl⟩ := Nat.exists_eq_add_of_le (Nat.not_le.1 hle)
      exact Or.inr ⟨later, rfl, (opens_behind_iff front behind later).1 h.opens,
        (runAt_behind front behind later).symm.trans h.run, h.first, h.hyphen⟩
  · intro h
    rcases h with hfront | ⟨later, rfl, hbehind⟩
    · have hle := hfront.opens.le
      exact ⟨(opens_front_iff front behind hle).2 hfront.opens,
        (runAt_front front behind hle).trans hfront.run, hfront.first, hfront.hyphen⟩
    · exact ⟨(opens_behind_iff front behind later).2 hbehind.opens,
        (runAt_behind front behind later).trans hbehind.run, hbehind.first, hbehind.hyphen⟩

/-- Names that are added to a list are those it lacks, in the order of a list of their own. -/
theorem foldl_addNew (names more : List (List Char)) :
    more.foldl addNew names =
      names ++ (more.foldl addNew []).filter fun name => !names.contains name := by
  -- From the end: the last name is compared with everything that was added before it.
  induction more using List.reverseRecOn with
  | nil => simp
  | append_singleton more name ih =>
    rw [List.foldl_append, List.foldl_append, ih]
    simp only [List.foldl_cons, List.foldl_nil, addNew]
    by_cases hmore : name ∈ more.foldl addNew [] <;> by_cases hnames : name ∈ names <;>
      simp [hmore, hnames]

/-- The names behind a `<` come after those in front of it, and those among them are left out. -/
theorem find_append (front behind : List Char) :
    find (front ++ '<' :: behind) =
      find front ++ (find behind).filter fun name => !(find front).contains name := by
  have hpieces : Text.pieces (· == '<') (front ++ '<' :: behind) =
      Text.pieces (· == '<') front ++ Text.pieces (· == '<') behind :=
    Text.pieces_append rfl front behind
  rw [find, hpieces, List.filterMap_append, List.foldl_append, foldl_addNew]
  rfl

/-! The names of a text. -/

theorem mem_find_iff (text name : List Char) :
    name ∈ find text ↔ ∃ place, StandsAt text place name := by
  induction text using Text.cut_induction (c := '<') with
  | whole s h =>
    rw [find_plain h, Option.mem_toList]
    simp [standsAt_plain_iff h]
  | cut front behind h ih =>
    have hfront : name ∈ find front ↔ ∃ place, StandsAt front place name := by
      rw [find_plain h, Option.mem_toList]
      simp [standsAt_plain_iff h]
    rw [find_append, List.mem_append, List.mem_filter, ih, hfront]
    simp only [standsAt_append_iff]
    constructor
    · intro h
      rcases h with ⟨place, hplace⟩ | ⟨⟨later, hlater⟩, -⟩
      · exact ⟨place, Or.inl hplace⟩
      · exact ⟨_, Or.inr ⟨later, rfl, hlater⟩⟩
    · intro ⟨place, h⟩
      by_cases hknown : name ∈ find front
      · exact Or.inl (hfront.1 hknown)
      · rcases h with hplace | ⟨later, -, hlater⟩
        · exact Or.inl ⟨place, hplace⟩
        · exact Or.inr ⟨⟨later, hlater⟩, by simpa using hknown⟩

theorem pairwise_plain {s : List Char} (h : '<' ∉ s) (relation : List Char → List Char → Prop) :
    (find s).Pairwise relation := by
  rw [find_plain h]
  cases nameOf? s <;> simp

theorem nodup_find (text : List Char) : (find text).Nodup := by
  induction text using Text.cut_induction (c := '<') with
  | whole s h => exact pairwise_plain h _
  | cut front behind h ih =>
    rw [find_append, List.nodup_append]
    refine ⟨pairwise_plain h _, ih.filter _, fun name hname other hother heq => ?_⟩
    subst heq
    have hnew := (List.mem_filter.1 hother).2
    simp [hname] at hnew

theorem pairwise_find (text : List Char) : (find text).Pairwise (ComesFirst text) := by
  induction text using Text.cut_induction (c := '<') with
  | whole s h => exact pairwise_plain h _
  | cut front behind h ih =>
    rw [find_append, List.pairwise_append]
    -- A name that the front lacks has no place there, so all its places are behind the cut.
    have hnew : ∀ name ∈ (find behind).filter (fun name => !(find front).contains name),
        ∀ place, StandsAt (front ++ '<' :: behind) place name →
          ∃ later, place = front.length + 1 + later ∧ StandsAt behind later name := by
      intro name hname place hplace
      have hlacks := (List.mem_filter.1 hname).2
      rcases (standsAt_append_iff ..).1 hplace with hfront | hbehind
      · simp [(mem_find_iff front name).2 ⟨place, hfront⟩] at hlacks
      · exact hbehind
    refine ⟨pairwise_plain h _, (ih.filter _).imp_of_mem ?_, ?_⟩
    · intro earlier later _ hlater ⟨place, hplace, hbefore⟩
      refine ⟨_, (standsAt_append_iff ..).2 (Or.inr ⟨place, rfl, hplace⟩), fun other hother => ?_⟩
      obtain ⟨there, rfl, hthere⟩ := hnew later hlater other hother
      exact Nat.add_lt_add_left (hbefore there hthere) _
    · intro earlier hearlier later hlater
      obtain ⟨place, hplace⟩ := (mem_find_iff front earlier).1 hearlier
      refine ⟨place, (standsAt_append_iff ..).2 (Or.inl hplace), fun other hother => ?_⟩
      obtain ⟨there, rfl, -⟩ := hnew later hlater other hother
      have hle := hplace.opens.le
      omega

/-- The names that are found are those that stand at the start of the text or behind a `<`, each
listed once, in the order of their first places. So a text that is cut at a `<` has the names of its
front, and behind them those of the rest that its front lacks. -/
theorem find_lists_first_places (text : List Char) :
    (∀ name, name ∈ find text ↔ ∃ place, StandsAt text place name) ∧
    (find text).Nodup ∧
    (find text).Pairwise (ComesFirst text) ∧
    ∀ front behind, find (front ++ '<' :: behind) =
      find front ++ (find behind).filter fun name => !(find front).contains name :=
  ⟨mem_find_iff text, nodup_find text, pairwise_find text, find_append⟩

example : find "x-a <b><x-b/><!y-c></x-a>< x-d\u2028>".toList =
    ["x-a".toList, "x-b".toList, "x-d".toList] := by decide

/-! Names that belong to no element. -/

/-- Where a name is looked for, but at the start, it stands behind a `<`. -/
theorem StandsAt.isElementName {text : List Char} {place : Nat} {name : List Char}
    (h : StandsAt text place name) (hplace : place ≠ 0) : IsElementName text name := by
  have hopen := h.opens.resolve_left hplace
  obtain ⟨hlt, hchar⟩ := List.getElem?_eq_some_iff.1 hopen
  obtain ⟨later, rfl⟩ := Nat.exists_eq_succ_of_ne_zero hplace
  have hsplit : text = text.take later ++ '<' :: text.drop (later + 1) := by
    have hcons : text.drop later = '<' :: text.drop (later + 1) := by
      rw [← hchar]
      exact List.drop_eq_getElem_cons hlt
    rw [← hcons, List.take_append_drop]
  refine ⟨text.take later, (text.drop (later + 1)).takeWhile Text.isBlank,
    ((text.drop (later + 1)).dropWhile Text.isBlank).dropWhile
      (fun c => !endsName c && c != '<'), ?_, fun c hc => List.mem_takeWhile_imp hc⟩
  rw [← h.run, runAt, List.append_assoc, List.takeWhile_append_dropWhile,
    List.takeWhile_append_dropWhile]
  exact hsplit

/-- A name that is found is the name of an element or stands at the start of the text. So all are
names of elements exactly if the one at the start is, if there is one, and where there is no `<` at
all the one at the start is found all the same. -/
theorem found_name_opened_iff (text : List Char) :
    (∀ name ∈ find text, IsElementName text name ∨ StandsAt text 0 name) ∧
    ((∀ name ∈ find text, IsElementName text name) ↔
      ∀ name, StandsAt text 0 name → IsElementName text name) ∧
    ('<' ∉ text → ∀ name, name ∈ find text ↔ StandsAt text 0 name) := by
  have hcases : ∀ name ∈ find text, IsElementName text name ∨ StandsAt text 0 name := by
    intro name hname
    obtain ⟨place, hstands⟩ := (mem_find_iff text name).1 hname
    by_cases hplace : place = 0
    · exact Or.inr (hplace ▸ hstands)
    · exact Or.inl (hstands.isElementName hplace)
  refine ⟨hcases, ⟨fun hall name hstart => hall name ((mem_find_iff text name).2 ⟨0, hstart⟩),
    fun hstart name hname => ?_⟩, fun hplain name => ?_⟩
  · exact (hcases name hname).elim id (hstart name)
  · rw [mem_find_iff]
    constructor
    · intro ⟨place, hstands⟩
      exact place_eq_zero hplain hstands.opens ▸ hstands
    · intro hstart
      exact ⟨0, hstart⟩

/-- In a text that opens with an element all names are names of elements. -/
theorem found_name_opened_page :
    ∀ name ∈ find "<x-a><x-b>".toList, IsElementName "<x-a><x-b>".toList name := by
  refine (found_name_opened_iff "<x-a><x-b>".toList).2.1.2 fun name hstart => ?_
  have hempty : runAt "<x-a><x-b>".toList 0 = [] := by decide
  have hhyphen := hstart.hyphen
  rw [← hstart.run, hempty] at hhyphen
  cases hhyphen

/-- A word of a text without any element is taken for the name of one. -/
theorem leading_word_is_found :
    find "well-known fact".toList = ["well-known".toList] ∧ '<' ∉ "well-known fact".toList ∧
      ¬ IsElementName "well-known fact".toList "well-known".toList := by
  have hplain : '<' ∉ "well-known fact".toList := by decide
  refine ⟨by decide, hplain, fun helement => hplain ?_⟩
  obtain ⟨before, blanks, after, htext, -⟩ := helement
  rw [htext]
  exact List.mem_append_right _ List.mem_cons_self

end MarkupTidy.CustomTags
