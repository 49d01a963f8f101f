import MarkupTidy.Proofs.Toml.Written
import MarkupTidy.Toml.Reader

/-!
Reading values back that are written within a line or an array. A value is read to its end with as
much fuel as its text has characters, and with the room that it takes when it is written.
-/
namespace MarkupTidy.Toml

/-- A value that is neither a string nor a container is read back. -/
theorem readScalar_writeValue {level : Nat} {v : Value} (hv : isScalar v = true) {text : List Char}
    (h : writeValue level v = .ok text) (hgenuine : v.IsGenuine) {rest : List Char}
    (hrest : Ends rest) : readScalar (text ++ rest) = .ok (v, rest) := by
  cases v with
  | null | text | list | table => cases hv
  | bool b =>
    cases h
    cases b <;> rfl
  | int i =>
    obtain ⟨s, hs, rfl⟩ := writeInteger_eq h
    exact readScalar_integer hs hrest
  | float x =>
    cases h
    exact readScalar_float x hrest
  | date d =>
    cases h
    exact readScalar_date hgenuine hrest
  | time t =>
    cases h
    exact readScalar_time hgenuine hrest
  | moment m =>
    cases h
    exact readScalar_moment hgenuine hrest

theorem skipFiller_of_head {c : Char} (hblank : isSpaceOrNewline c = false) (hcomment : c ≠ '#')
    (blanks rest : List Char) (h : ∀ d ∈ blanks, isSpaceOrNewline d = true) :
    skipFiller (blanks ++ c :: rest) = .ok (c :: rest) := by
  have hdrop : (blanks ++ c :: rest).dropWhile isSpaceOrNewline = c :: rest := by
    rw [List.dropWhile_append_of_pos h, List.dropWhile_cons, if_neg (by simp [hblank])]
  rw [skipFiller]
  split
  · next heq =>
    rw [hdrop] at heq
    cases heq
    exact absurd rfl hcomment
  · rw [hdrop]

theorem skipFiller_comma (rest : List Char) : skipFiller (',' :: rest) = .ok (',' :: rest) :=
  skipFiller_of_head rfl (by decide) [] rest (by simp)

theorem isSpaceOrNewline_indent (level : Nat) :
    ∀ c ∈ '\n' :: indent level, isSpaceOrNewline c = true := by
  intro c hc
  rcases List.mem_cons.mp hc with rfl | hc
  · rfl
  · rw [(List.mem_replicate.mp hc).2]
    rfl

/-- A line end and the indent of the next line are passed, up to a value. -/
theorem skipFiller_indent (level : Nat) {text : List Char}
    (h : ∃ c more, text = c :: more ∧ IsValueHead c) :
    skipFiller ('\n' :: (indent level ++ text)) = .ok text := by
  obtain ⟨c, more, rfl, hblank, hcomment, -⟩ := h
  exact skipFiller_of_head hblank hcomment ('\n' :: indent level) more
    (isSpaceOrNewline_indent level)

/-- The lines of an array's items. -/
def itemLines (level : Nat) (parts : List (List Char)) : List Char :=
  parts.flatMap fun part => indent level ++ part ++ [',', '\n']

theorem itemLines_cons (level : Nat) (part : List Char) (parts : List (List Char))
    (rest : List Char) :
    itemLines level (part :: parts) ++ rest =
      indent level ++ (part ++ (',' :: '\n' :: (itemLines level parts ++ rest))) := by
  simp [itemLines]

/-- Members of an inline table with commas between them, and the end of the table. -/
def memberText (parts : List (List Char)) : List Char :=
  List.intercalate [',', ' '] parts ++ [' ', '}']

theorem memberText_single (part rest : List Char) :
    memberText [part] ++ rest = part ++ (' ' :: '}' :: rest) := by
  simp [memberText, List.intercalate]

theorem memberText_cons (part second : List Char) (parts : List (List Char)) (rest : List Char) :
    memberText (part :: second :: parts) ++ rest =
      part ++ (',' :: ' ' :: (memberText (second :: parts) ++ rest)) := by
  simp [memberText, List.intercalate, List.intersperse]

/-- What an inline table that is read has frozen lies at its entries. -/
def FreezesEntries (t : InlineTable) : Prop :=
  ∀ key ∈ t.frozen, ∃ name ∈ t.entries.map Prod.fst, key = [name]

theorem add_new {t : InlineTable} (ht : FreezesEntries t) {name : String}
    (hnew : name ∉ t.entries.map Prod.fst) (value : Value) :
    ∃ t', t.add [name] value = .ok t' ∧ t'.entries = t.entries ++ [(name, value)] ∧
      FreezesEntries t' := by
  have hfrozen : (t.frozen.any fun above => above.isPrefixOf [name]) = false := by
    rw [List.any_eq_false]
    intro key hkey
    obtain ⟨other, hother, rfl⟩ := ht key hkey
    have hne : other ≠ name := fun heq => hnew (heq ▸ hother)
    simp [List.isPrefixOf, hne]
  have hlookup : t.entries.lookup name = none := Pairs.lookup_eq_none.2 hnew
  refine ⟨⟨t.entries ++ [(name, value)],
    if Document.isContainer value then [name] :: t.frozen else t.frozen⟩, ?_, rfl, ?_⟩
  · simp [InlineTable.add, hfrozen, within, addEntry, hlookup, bind, Except.bind]
  · have hold : ∀ key ∈ t.frozen,
        ∃ other ∈ (t.entries ++ [(name, value)]).map Prod.fst, key = [other] := by
      intro key hkey
      obtain ⟨other, hother, rfl⟩ := ht key hkey
      exact ⟨other, by simp only [List.map_append, List.mem_append]; exact Or.inl hother, rfl⟩
    intro key hkey
    simp only at hkey
    split at hkey
    · rcases List.mem_cons.mp hkey with rfl | hkey
      · exact ⟨name, by simp, rfl⟩
      · exact hold key hkey
    · exact hold key hkey

theorem head_skipSpace {text : List Char} (h : ∃ c more, text = c :: more ∧ IsValueHead c) :
    skipSpace (' ' :: text) = text := by
  obtain ⟨c, more, rfl, hblank, -⟩ := h
  have hspace : isSpace c = false := by
    simp only [isSpaceOrNewline, Bool.or_eq_false_iff] at hblank
    exact hblank.1
  simp [skipSpace, hspace, show isSpace ' ' = true from rfl]

theorem length_writeEntry (key : String) (value : List Char) :
    value.length + 3 ≤ (writeEntry key value).length := by
  simp only [writeEntry, List.length_append, List.length_cons]
  omega

/-- An entry is read to the end of its value. -/
theorem readEntry_writeEntry {fuel room : Nat} (key : String) {text rest : List Char}
    (hhead : ∃ c more, text = c :: more ∧ IsValueHead c) {value : Value}
    (h : readValue fuel room (text ++ rest) = .ok (value, rest)) :
    readEntry (fuel + 1) room (writeEntry key text ++ rest) = .ok ([key], value, rest) := by
  have hsplit : writeEntry key text ++ rest =
      keyText [key] ++ (' ' :: '=' :: ' ' :: (text ++ rest)) := by
    simp [writeEntry, keyText]
  have hskip : skipSpace (' ' :: '=' :: ' ' :: (text ++ rest)) = '=' :: ' ' :: (text ++ rest) := rfl
  have hstop : StopsKey (' ' :: '=' :: ' ' :: (text ++ rest)) := fun c hc => by cases hc; decide
  have hkey := readKey_keyText (List.cons_ne_nil key []) hstop (by rw [hskip]; simp)
  rw [hsplit, readEntry]
  simp only [hkey, hskip, bind, Except.bind, head_skipSpace (head_append rest hhead), h]

theorem readString?_none {c : Char} (hdouble : c ≠ '"') (hsingle : c ≠ '\'') (more : List Char) :
    readString? (c :: more) = none := by
  unfold readString?
  split <;> simp_all

/-- Text that begins neither like a string nor like a container is read as a scalar. -/
theorem readValue_scalar (fuel room : Nat) {s : List Char}
    (h : ∃ c more, s = c :: more ∧ IsScalarHead c) :
    readValue (fuel + 1) room s = readScalar s := by
  obtain ⟨c, more, rfl, hc⟩ := h
  have hbracket : c ≠ '[' := hc.ne rfl (by decide)
  have hbrace : c ≠ '{' := hc.ne rfl (by decide)
  rw [readValue, readString?_none (hc.ne rfl (by decide)) (hc.ne rfl (by decide))]
  · exact fun _ heq => hbracket (List.cons.inj heq).1
  · exact fun _ heq => hbrace (List.cons.inj heq).1

/-- With this fuel, every value that is written in as many characters is read back. -/
def ReadsBack (fuel : Nat) : Prop :=
  ∀ (room level : Nat) (v : Value) (text rest : List Char), writeValue level v = .ok text →
    v.IsGenuine → text.length ≤ fuel → inlineDepth v ≤ room → Ends rest →
    readValue fuel room (text ++ rest) = .ok (v, rest)

/-- An item with the end of the array behind its comma. -/
theorem readItems_last {fuel room : Nat} {done : List Value} {s after rest : List Char}
    {value : Value} (hvalue : readValue fuel room s = .ok (value, ',' :: after))
    (hafter : skipFiller after = .ok (']' :: rest)) :
    readItems (fuel + 1) room done s = .ok (.list (done.reverse ++ [value]), rest) := by
  simp only [readItems, hvalue, skipFiller_comma, hafter, bind, Except.bind, List.reverse_cons]

/-- An item with a further one behind its comma. -/
theorem readItems_next {fuel room : Nat} {done : List Value} {s after next : List Char}
    {value : Value} (hvalue : readValue fuel room s = .ok (value, ',' :: after))
    (hafter : skipFiller after = .ok next)
    (hnext : ∃ c more, next = c :: more ∧ IsValueHead c) :
    readItems (fuel + 1) room done s = readItems fuel room (value :: done) next := by
  obtain ⟨c, more, rfl, -, -, hbracket, -⟩ := hnext
  simp only [readItems, hvalue, skipFiller_comma, hafter, bind, Except.bind]
  split
  · next heq => exact absurd (List.cons.inj heq).1 hbracket
  · rfl

theorem readItems_lines {bound : Nat} (hread : ∀ fuel < bound, ReadsBack fuel) {room level : Nat}
    {blanks : List Char} (hblanks : ∀ c ∈ '\n' :: blanks, isSpaceOrNewline c = true)
    (rest : List Char) (items : List Value) :
    ∀ (fuel : Nat) (done : List Value) (item : Value) (first : List Char) (parts : List (List Char)),
      writeValue level item = .ok first → writeItems level items = .ok parts →
      Value.AreGenuine (item :: items) → itemsDepth (item :: items) ≤ room →
      (itemLines level (first :: parts)).length ≤ fuel → fuel ≤ bound →
      readItems fuel room done
          (first ++ (',' :: '\n' :: (itemLines level parts ++ (blanks ++ ']' :: rest)))) =
        .ok (.list (done.reverse ++ item :: items), rest) := by
  induction items with
  | nil =>
    intro fuel done item first parts hfirst hparts hgenuine hdepth hfuel hbound
    cases hparts
    have hlength : first.length < fuel := by
      simp only [itemLines, List.flatMap_cons, List.length_append, List.length_cons] at hfuel
      omega
    obtain ⟨fuel, rfl⟩ : ∃ n, fuel = n + 1 := ⟨fuel - 1, by omega⟩
    simp only [itemsDepth] at hdepth
    have hvalue := hread fuel (by omega) room level item first
      (',' :: '\n' :: (blanks ++ ']' :: rest)) hfirst hgenuine.1 (by omega) (by omega) (.comma _)
    exact readItems_last hvalue (skipFiller_of_head rfl (by decide) ('\n' :: blanks) rest hblanks)
  | cons next items ih =>
    intro fuel done item first parts hfirst hparts hgenuine hdepth hfuel hbound
    obtain ⟨second, others, hsecond, hothers, rfl⟩ := writeItems_cons hparts
    have hlengths : first.length + (itemLines level (second :: others)).length < fuel := by
      simp only [itemLines, List.flatMap_cons, List.length_append, List.length_cons] at hfuel ⊢
      omega
    obtain ⟨fuel, rfl⟩ : ∃ n, fuel = n + 1 := ⟨fuel - 1, by omega⟩
    rw [itemsDepth] at hdepth
    have hvalue := hread fuel (by omega) room level item first
      (',' :: '\n' :: (itemLines level (second :: others) ++ (blanks ++ ']' :: rest))) hfirst
      hgenuine.1 (by omega) (by omega) (.comma _)
    have hnext := head_append (',' :: '\n' :: (itemLines level others ++ (blanks ++ ']' :: rest)))
      (head_writeValue hsecond)
    have hskip := skipFiller_indent level hnext
    rw [← itemLines_cons] at hskip
    rw [readItems_next hvalue hskip hnext,
      ih fuel (item :: done) next second others hsecond hothers hgenuine.2 (by omega) (by omega)
        (by omega)]
    simp

/-- A member with the end of its inline table behind it. -/
theorem readMembers_last {fuel room : Nat} {done t : InlineTable} {s rest : List Char} {key : Key}
    {value : Value} (hentry : readEntry fuel room s = .ok (key, value, ' ' :: '}' :: rest))
    (hadd : done.add key value = .ok t) :
    readMembers (fuel + 1) room done s = .ok (.table t.entries, rest) := by
  have hskip : skipSpace (' ' :: '}' :: rest) = '}' :: rest := rfl
  simp only [readMembers, hentry, refuseWith, hadd, hskip, bind, Except.bind, Except.mapError]

/-- A member with a further one behind its comma. -/
theorem readMembers_next {fuel room : Nat} {done t : InlineTable} {s next : List Char} {key : Key}
    {value : Value} (hentry : readEntry fuel room s = .ok (key, value, ',' :: ' ' :: next))
    (hadd : done.add key value = .ok t) :
    readMembers (fuel + 1) room done s = readMembers fuel room t (skipSpace (' ' :: next)) := by
  have hskip : skipSpace (',' :: ' ' :: next) = ',' :: ' ' :: next := rfl
  simp only [readMembers, hentry, refuseWith, hadd, hskip, bind, Except.bind, Except.mapError]

/-- Members begin with a key. -/
theorem head_memberText (key : String) (first : List Char) (parts : List (List Char))
    (rest : List Char) :
    ∃ c more, memberText (writeEntry key first :: parts) ++ rest = c :: more ∧
      (isBareKeyChar c = true ∨ c = '"') := by
  cases parts with
  | nil =>
    rw [memberText_single, writeEntry, List.append_assoc]
    exact head_writeKeyPart key.toList _
  | cons second parts =>
    rw [memberText_cons, writeEntry, List.append_assoc]
    exact head_writeKeyPart key.toList _

/-- A blank before members is passed. -/
theorem skipSpace_memberText (key : String) (first : List Char) (parts : List (List Char))
    (rest : List Char) :
    skipSpace (' ' :: (memberText (writeEntry key first :: parts) ++ rest)) =
      memberText (writeEntry key first :: parts) ++ rest := by
  obtain ⟨c, more, heq, hc⟩ := head_memberText key first parts rest
  rw [heq]
  exact skipSpace_of_head (isSpace_keyHead hc) more

/-- A key that comes later than others is none of them. -/
theorem notMem_done {done entries : List (String × Value)} {key : String} {value : Value}
    (h : ((done ++ (key, value) :: entries).map Prod.fst).Nodup) : key ∉ done.map Prod.fst := by
  simp only [List.map_append, List.map_cons, List.nodup_append, List.mem_cons] at h
  exact fun hmem => h.2.2 _ hmem _ (Or.inl rfl) rfl

theorem readMembers_line {bound : Nat} (hread : ∀ fuel < bound, ReadsBack fuel) {room : Nat}
    (rest : List Char) (entries : List (String × Value)) :
    ∀ (fuel : Nat) (done : InlineTable) (key : String) (value : Value) (first : List Char)
      (parts : List (List Char)),
      writeValue 0 value = .ok first → writeMembers entries = .ok parts →
      Value.HasGenuine ((key, value) :: entries) → FreezesEntries done →
      ((done.entries ++ (key, value) :: entries).map Prod.fst).Nodup →
      membersDepth ((key, value) :: entries) ≤ room →
      (memberText (writeEntry key first :: parts)).length ≤ fuel → fuel ≤ bound →
      readMembers fuel room done (memberText (writeEntry key first :: parts) ++ rest) =
        .ok (.table (done.entries ++ (key, value) :: entries), rest) := by
  induction entries with
  | nil =>
    intro fuel done key value first parts hfirst hparts hgenuine hfrozen hnodup hdepth hfuel hbound
    cases hparts
    have hlength : first.length + 2 < fuel := by
      have heq := congrArg List.length (memberText_single (writeEntry key first) [])
      simp only [List.length_append, List.length_cons, List.length_nil] at heq
      have hentry := length_writeEntry key first
      omega
    obtain ⟨fuel, rfl⟩ : ∃ n, fuel = n + 2 := ⟨fuel - 2, by omega⟩
    simp only [membersDepth] at hdepth
    have hvalue := hread fuel (by omega) room 0 value first (' ' :: '}' :: rest) hfirst hgenuine.1
      (by omega) (by omega) (.brace _)
    have hentry := readEntry_writeEntry key (head_writeValue hfirst) hvalue
    obtain ⟨t, hadd, hentries, -⟩ := add_new hfrozen (notMem_done hnodup) value
    rw [memberText_single, readMembers_last hentry hadd, hentries]
  | cons entry entries ih =>
    obtain ⟨nextKey, next⟩ := entry
    intro fuel done key value first parts hfirst hparts hgenuine hfrozen hnodup hdepth hfuel hbound
    obtain ⟨second, others, hsecond, hothers, rfl⟩ := writeMembers_cons hparts
    have hlengths : first.length + 3 < fuel ∧
        (memberText (writeEntry nextKey second :: others)).length + 3 < fuel := by
      have heq := congrArg List.length
        (memberText_cons (writeEntry key first) (writeEntry nextKey second) others [])
      simp only [List.length_append, List.length_cons, List.length_nil] at heq
      have hentry := length_writeEntry key first
      omega
    obtain ⟨fuel, rfl⟩ : ∃ n, fuel = n + 2 := ⟨fuel - 2, by omega⟩
    rw [membersDepth] at hdepth
    have hvalue := hread fuel (by omega) room 0 value first
      (',' :: ' ' :: (memberText (writeEntry nextKey second :: others) ++ rest)) hfirst hgenuine.1
      (by omega) (by omega) (.comma _)
    have hentry := readEntry_writeEntry key (head_writeValue hfirst) hvalue
    obtain ⟨t, hadd, hentries, hfrozen'⟩ := add_new hfrozen (notMem_done hnodup) value
    have hjoin : t.entries ++ (nextKey, next) :: entries =
        done.entries ++ (key, value) :: (nextKey, next) :: entries := by
      rw [hentries, List.append_assoc, List.singleton_append]
    rw [memberText_cons, readMembers_next hentry hadd, skipSpace_memberText,
      ih (fuel + 1) t nextKey next second others hsecond hothers hgenuine.2 hfrozen'
        (by rwa [hjoin]) (by omega) (by omega) (by omega), hjoin]

theorem Ends.notQuote {rest : List Char} (h : Ends rest) : rest.head? ≠ some '"' := by
  cases h <;> simp

theorem bracketLines_append (level : Nat) (first : List Char) (parts : List (List Char))
    (rest : List Char) :
    bracketLines level (first :: parts) ++ rest =
      '[' :: '\n' :: (indent (level + 1) ++ (first ++
        (',' :: '\n' :: (itemLines (level + 1) parts ++ (indent level ++ ']' :: rest))))) := by
  simp [bracketLines, itemLines]

theorem bracedLine_append (parts : List (List Char)) (rest : List Char) :
    bracedLine parts ++ rest = '{' :: ' ' :: (memberText parts ++ rest) := by
  simp [bracedLine, memberText]

theorem readValue_text (fuel room : Nat) (s : String) {rest : List Char} (hrest : Ends rest) :
    readValue (fuel + 1) room (writeText s.toList ++ rest) = .ok (.text s, rest) := by
  rw [readValue, readString?_writeText s.toList hrest.notQuote]
  · simp [bind, Except.bind]
  · exact fun _ heq => absurd (List.cons.inj heq).1 (by decide)
  · exact fun _ heq => absurd (List.cons.inj heq).1 (by decide)

theorem readValue_emptyList (fuel room : Nat) (rest : List Char) :
    readValue (fuel + 1) (room + 2) ('[' :: ']' :: rest) = .ok (.list [], rest) := by
  have hskip : skipFiller (']' :: rest) = .ok (']' :: rest) :=
    skipFiller_of_head rfl (by decide) [] rest (by simp)
  simp only [readValue, readString?_none (c := '[') (by decide) (by decide), hskip, bind,
    Except.bind]

theorem readValue_list {fuel room : Nat} {s next : List Char} (hskip : skipFiller s = .ok next)
    (hnext : ∃ c more, next = c :: more ∧ IsValueHead c) :
    readValue (fuel + 1) (room + 2) ('[' :: s) = readItems fuel room [] next := by
  obtain ⟨c, more, rfl, -, -, hbracket, -⟩ := hnext
  simp only [readValue, readString?_none (c := '[') (by decide) (by decide), hskip, bind,
    Except.bind]
  split
  · next heq => exact absurd (List.cons.inj heq).1 hbracket
  · rfl

theorem readValue_table {fuel room : Nat} {s next : List Char} (hskip : skipSpace s = next)
    (hnext : ∃ c more, next = c :: more ∧ (isBareKeyChar c = true ∨ c = '"')) :
    readValue (fuel + 1) (room + 3) ('{' :: s) = readMembers fuel room ⟨[], []⟩ next := by
  obtain ⟨c, more, rfl, hc⟩ := hnext
  simp only [readValue, readString?_none (c := '{') (by decide) (by decide), hskip]
  split
  · next heq =>
    cases heq
    exact absurd hc (by decide)
  · rfl

/-- A value is read back with the fuel and the room that it takes. -/
theorem readsBack (fuel : Nat) : ReadsBack fuel := by
  induction fuel using Nat.strongRecOn with
  | _ fuel ih =>
    intro room level v text rest hwrite hgenuine hfuel hdepth hrest
    obtain ⟨fuel, rfl⟩ : ∃ n, fuel = n + 1 := by
      obtain ⟨c, more, heq, -⟩ := head_writeValue hwrite
      rw [heq, List.length_cons] at hfuel
      exact ⟨fuel - 1, by omega⟩
    cases v with
    | null => cases hwrite
    | bool | int | float | date | time | moment =>
      rw [readValue_scalar _ _ (head_append rest (head_scalar rfl hwrite))]
      exact readScalar_writeValue rfl hwrite hgenuine hrest
    | text s =>
      cases hwrite
      exact readValue_text fuel room s hrest
    | list items =>
      rw [inlineDepth] at hdepth
      obtain ⟨room, rfl⟩ : ∃ n, room = n + 2 := ⟨room - 2, by omega⟩
      cases items with
      | nil =>
        cases hwrite
        exact readValue_emptyList fuel room rest
      | cons item items =>
        obtain ⟨first, others, hfirst, hothers, rfl⟩ := writeValue_list hwrite
        have hnext := head_append (',' :: '\n' :: (itemLines (level + 1) others ++
          (indent level ++ ']' :: rest))) (head_writeValue hfirst)
        have hskip := skipFiller_indent (level + 1) hnext
        have hlength : (itemLines (level + 1) (first :: others)).length ≤ fuel := by
          simp only [bracketLines, List.length_append, List.length_cons] at hfuel
          simp only [itemLines]
          omega
        rw [bracketLines_append, readValue_list hskip hnext]
        exact readItems_lines ih (isSpaceOrNewline_indent level) rest items fuel [] item first
          others hfirst hothers hgenuine (by omega) hlength (by omega)
    | table entries =>
      rw [inlineDepth] at hdepth
      obtain ⟨room, rfl⟩ : ∃ n, room = n + 3 := ⟨room - 3, by omega⟩
      cases entries with
      | nil =>
        cases hwrite
        rfl
      | cons entry entries =>
        obtain ⟨key, value⟩ := entry
        obtain ⟨first, others, hfirst, hothers, rfl⟩ := writeValue_table hwrite
        have hlength : (memberText (writeEntry key first :: others)).length ≤ fuel := by
          simp only [bracedLine, List.length_append, List.length_cons] at hfuel
          simp only [memberText, List.length_append, List.length_cons]
          omega
        rw [bracedLine_append, readValue_table (skipSpace_memberText key first others rest)
          (head_memberText key first others rest)]
        exact readMembers_line ih rest entries fuel ⟨[], []⟩ key value first others hfirst hothers
          hgenuine.2 (fun key hkey => by cases hkey) hgenuine.1 (by omega) hlength (by omega)

end MarkupTidy.Toml
