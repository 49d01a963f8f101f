import MarkupTidy.Proofs.Toml.Layout
import MarkupTidy.Proofs.Toml.Statements

/-!
Sections of a written document. Reading a table's sections adds to it what they hold, in the order
in which they are written.
-/
namespace MarkupTidy.Toml

/-- Reading has added entries to the table of a key and left alone what lies beside them. -/
structure Grows (key : Key) (inner more : Table) (before after : Document) : Prop where
  root : after.root = grow key inner more before.root
  pending : after.pending = []
  adds : Adds key before.marks after.marks
  beside : ∀ name ∉ more.map Prod.fst, Clear (key ++ [name]) before.marks →
    Clear (key ++ [name]) after.marks

theorem Grows.refl {d : Document} (h : d.pending = []) (key : Key) (inner : Table) :
    Grows key inner [] d d :=
  ⟨rfl, h, Adds.refl key d.marks, fun _ _ hclear => hclear⟩

theorem Grows.trans {key : Key} {inner first second : Table} {d₁ d₂ d₃ : Document}
    (hreach : reach key d₁.root = some inner) (h : Grows key inner first d₁ d₂)
    (h' : Grows key (inner ++ first) second d₂ d₃) : Grows key inner (first ++ second) d₁ d₃ := by
  refine ⟨?_, h'.pending, h.adds.trans h'.adds, ?_⟩
  · rw [h'.root, h.root, grow_grow hreach]
  · intro name hname hclear
    rw [List.map_append, List.mem_append, not_or] at hname
    exact h'.beside name hname.2 (h.beside name hname.1 hclear)

theorem Grows.reach {key : Key} {inner more : Table} {d d' : Document}
    (h : Grows key inner more d d') (hreach : Toml.reach key d.root = some inner) :
    Toml.reach key d'.root = some (inner ++ more) := by
  rw [h.root]
  exact reach_grow hreach more

/-- A table that has been opened and holds nothing yet. -/
structure Opened (key : Key) (d : Document) : Prop where
  header : d.header = key
  pending : d.pending = []
  empty : reach key d.root = some []
  thawed : Thawed key d.marks
  clear : ∀ name, Clear (key ++ [name]) d.marks

/-- A name that a table does not have is not there either when the table has grown by others. -/
theorem lookup_append_none {name : String} {first second : Table} (h : first.lookup name = none)
    (hsecond : name ∉ second.map Prod.fst) : (first ++ second).lookup name = none := by
  rw [List.lookup_append, h, Option.none_or, Pairs.lookup_eq_none]
  exact hsecond

/-- The entries behind one with another name do not have its name. -/
theorem notMem_single {name : String} {rest : Table} (hname : name ∉ rest.map Prod.fst)
    {entry : String × Value} (hentry : entry ∈ rest) (value : Value) :
    entry.1 ∉ [(name, value)].map Prod.fst := by
  intro hmem
  have heq : entry.1 = name := by simpa using hmem
  exact hname (heq ▸ List.mem_map_of_mem hentry)

/-- An entry of the open table grows it by one. -/
theorem grows_addValue {d : Document} (hpending : d.pending = []) (hthawed : Thawed d.header d.marks)
    {inner : Table} (hreach : reach d.header d.root = some inner) {name : String}
    (hnew : inner.lookup name = none) (value : Value) :
    ∃ d', d.addValue [name] value = .ok d' ∧ d'.header = d.header ∧
      Grows d.header inner [(name, value)] d d' := by
  refine ⟨_, addValue_eq hthawed hreach hnew value, rfl, rfl, hpending, ?_, ?_⟩
  · show Adds d.header d.marks ((if Document.isContainer value then _ else []) ++ d.marks)
    split
    · exact Adds.cons (Mark.under_of_below (List.prefix_refl _)) (Adds.refl d.header d.marks)
    · exact Adds.refl d.header d.marks
  · intro other hother hclear
    have hne : name ≠ other := fun heq => hother (by simp [heq])
    refine hclear.beside hne ?_
    show ∀ mark ∈ (if Document.isContainer value then _ else []) ++ d.marks, _
    intro mark hmark
    rcases List.mem_append.1 hmark with hmark | hmark
    · split at hmark
      · rw [List.mem_singleton.1 hmark]
        exact Or.inr (List.prefix_refl _)
      · cases hmark
    · exact Or.inl hmark

/-- The lines of a table's plain entries add them. -/
theorem passes_plain {key : Key} (entries : Table) :
    ∀ (d : Document) (inner : Table) (text : List Char), writePlain entries = .ok text →
      Value.TableGenuine entries → sectionDepth entries ≤ nestingRoom → d.header = key →
      d.pending = [] → Thawed key d.marks → reach key d.root = some inner →
      (∀ entry ∈ entries, inner.lookup entry.1 = none) →
      ∃ d', Passes text d d' ∧ d'.header = key ∧ Grows key inner (plainEntries entries) d d' := by
  induction entries with
  | nil =>
    intro d inner text hwrite hgenuine hdepth hheader hpending hthawed hreach hnew
    cases hwrite
    exact ⟨d, Passes.nil d, hheader, Grows.refl hpending key inner⟩
  | cons entry rest ih =>
    obtain ⟨name, value⟩ := entry
    intro d inner text hwrite hgenuine hdepth hheader hpending hthawed hreach hnew
    rw [sectionDepth] at hdepth
    have hnewRest : ∀ entry ∈ rest, inner.lookup entry.1 = none :=
      fun entry hentry => hnew entry (List.mem_cons_of_mem _ hentry)
    rcases writePlain_cons hwrite with ⟨hsectioned, hrest⟩ | ⟨first, others, hplain, hfirst, hothers, rfl⟩
    · obtain ⟨d', hpasses, hheader', hgrows⟩ := ih d inner text hrest hgenuine.tail (by omega)
        hheader hpending hthawed hreach hnewRest
      have hentries : plainEntries ((name, value) :: rest) = plainEntries rest := by
        simp [plainEntries, sectioned_of_ok hsectioned]
      exact ⟨d', hpasses, hheader', by rwa [hentries]⟩
    · subst hheader
      have hlookup : inner.lookup name = none := hnew (name, value) List.mem_cons_self
      obtain ⟨d₁, hadd, hheader₁, hgrows₁⟩ := grows_addValue hpending hthawed hreach hlookup value
      have hdepthValue : inlineDepth value ≤ nestingRoom := by
        rw [← entryDepth_of_plain hplain]
        omega
      have hpasses₁ := Passes.entry hfirst hgenuine.head hdepthValue hadd
      have hnew₁ : ∀ entry ∈ rest, (inner ++ [(name, value)]).lookup entry.1 = none := by
        intro entry hentry
        exact lookup_append_none (hnewRest entry hentry)
          (notMem_single hgenuine.notMem_tail hentry value)
      obtain ⟨d₂, hpasses₂, hheader₂, hgrows₂⟩ := ih d₁ (inner ++ [(name, value)]) others hothers
        hgenuine.tail (by omega) hheader₁ hgrows₁.pending (hthawed.adds hgrows₁.adds)
        (hgrows₁.reach hreach) hnew₁
      have hentries : plainEntries ((name, value) :: rest) = [(name, value)] ++ plainEntries rest := by
        simp [plainEntries, sectioned_of_ok hplain]
      have htext : writeEntry name first ++ '\n' :: others =
          writeEntry name first ++ ['\n'] ++ others := by simp
      refine ⟨d₂, ?_, hheader₂, ?_⟩
      · rw [htext]
        exact hpasses₁.append hpasses₂
      · rw [hentries]
        exact hgrows₁.trans hreach hgrows₂

/-- Reading the sections of these entries adds them, whichever table they belong to. -/
def SectionsPass (entries : Table) : Prop :=
  ∀ (key : Key) (d : Document) (inner : Table) (texts : List (List Char)),
    writeSections (keyText key) entries = .ok texts → Value.TableGenuine entries →
    sectionDepth entries ≤ nestingRoom → d.pending = [] → reach key d.root = some inner →
    (∀ entry ∈ entries, sectioned entry.2 = true →
      inner.lookup entry.1 = none ∧ Clear (key ++ [entry.1]) d.marks) →
    ∃ d', Passes (joinSections texts) d d' ∧ Grows key inner (arrangeSections entries) d d'

/-- What stands below a header fills the table that it opens. -/
theorem passes_contents {entries : Table} (hsections : SectionsPass entries) {key : Key}
    {plain : List Char} {below : List (List Char)} (hplain : writePlain entries = .ok plain)
    (hbelow : writeSections (keyText key) entries = .ok below)
    (hgenuine : Value.TableGenuine entries) (hdepth : sectionDepth entries ≤ nestingRoom)
    {d : Document} (hopened : Opened key d) :
    ∃ d₁ d', Passes plain d d₁ ∧ Passes (joinSections below) d₁ d' ∧
      Grows key [] (arrangeTable entries) d d' := by
  obtain ⟨d₁, hpasses₁, -, hgrows₁⟩ := passes_plain entries d [] plain hplain hgenuine hdepth
    hopened.header hopened.pending hopened.thawed hopened.empty (fun _ _ => rfl)
  have hfree : ∀ entry ∈ entries, sectioned entry.2 = true →
      ([] ++ plainEntries entries).lookup entry.1 = none ∧ Clear (key ++ [entry.1]) d₁.marks := by
    intro entry hentry hsectioned
    have hnew := sectioned_notMem_plain hgenuine.1 hentry hsectioned
    exact ⟨lookup_append_none rfl hnew, hgrows₁.beside entry.1 hnew (hopened.clear entry.1)⟩
  obtain ⟨d₂, hpasses₂, hgrows₂⟩ := hsections key d₁ ([] ++ plainEntries entries) below hbelow
    hgenuine hdepth hgrows₁.pending (hgrows₁.reach hopened.empty) hfree
  exact ⟨d₁, d₂, hpasses₁, hpasses₂, hgrows₁.trans hopened.empty hgrows₂⟩

/-- Sections that are joined are read one after another. -/
theorem Passes.sections {first second : List (List Char)} {d₁ d₂ d₃ : Document}
    (h : Passes (joinSections first) d₁ d₂) (h' : Passes (joinSections second) d₂ d₃) :
    Passes (joinSections (first ++ second)) d₁ d₃ := by
  by_cases hfirst : first = []
  · subst hfirst
    exact h.append h'
  by_cases hsecond : second = []
  · subst hsecond
    rw [List.append_nil, ← List.append_nil (joinSections first)]
    exact h.append h'
  · rw [joinSections_append hfirst hsecond]
    exact h.append ((Passes.emptyLine d₂).append h')

theorem Passes.assemble {name plain : List Char} {listItem : Bool} {below : List (List Char)}
    {d₁ d₂ d₃ d₄ : Document} (hheader : Passes (headerLine name listItem plain below) d₁ d₂)
    (hplain : Passes plain d₂ d₃) (hbelow : Passes (joinSections below) d₃ d₄) :
    Passes (Toml.assemble name listItem plain below) d₁ d₄ := by
  have hhead := hheader.append hplain
  simp only [Toml.assemble]
  by_cases hempty : (headerLine name listItem plain below ++ plain).isEmpty = true
  · rw [if_pos hempty]
    rw [List.isEmpty_iff.1 hempty] at hhead
    exact hhead.append hbelow
  · rw [if_neg hempty]
    rw [← joinSections_single (headerLine name listItem plain below ++ plain)] at hhead
    exact hhead.sections hbelow

/-- A table that has come into being below another one is a new entry of it. -/
theorem Grows.of_below {key : Key} {name : String} {inner new : Table} {d d' : Document}
    (hreach : Toml.reach key d.root = some inner) (hnew : inner.lookup name = none)
    (hroot : d'.root = put (key ++ [name]) new d.root) (hpending : d'.pending = [])
    (hadds : Adds (key ++ [name]) d.marks d'.marks) :
    Grows key inner [(name, .table new)] d d' := by
  refine ⟨?_, hpending, hadds.of_below, fun other hother hclear => ?_⟩
  · rw [hroot, put_snoc hreach, setChild_of_lookup_none hnew]
    rfl
  · have hne : name ≠ other := fun heq => hother (by simp [heq])
    exact hclear.beside hne fun mark hmark => (hadds mark hmark).imp_right Mark.Under.starts

/-- The sections of a table add it, whether or not it needs a header. -/
theorem passes_table {entries : Table} (hsections : SectionsPass entries) {key : Key} {name : String}
    {texts : List (List Char)}
    (hwrite : writeSection (keyText (key ++ [name])) (.table entries) = .ok texts)
    (hgenuine : Value.TableGenuine entries) (hdepth : sectionDepth entries ≤ nestingRoom)
    {d : Document} (hpending : d.pending = []) {inner : Table}
    (hreach : reach key d.root = some inner) (hnew : inner.lookup name = none)
    (hclear : Clear (key ++ [name]) d.marks) :
    ∃ d', Passes (joinSections texts) d d' ∧
      Grows key inner [(name, arrange (.table entries))] d d' := by
  obtain ⟨plain, below, hplain, hbelow, rfl⟩ := writeSection_table hwrite
  have hempty : reach (key ++ [name]) d.root = some [] := by
    rw [reach_snoc hreach, child_of_lookup_none hnew]
  have hheader := headerLine_table key name plain below
  rw [joinSections_single, arrange]
  by_cases hneeded : (!plain.isEmpty || below.isEmpty) = true
  · rw [if_pos hneeded] at hheader
    have hopen := Passes.tableHeader (snoc_ne_nil key name) hpending (openTable_eq hclear hempty)
    have hadds : Adds (key ++ [name]) d.marks (.declared (key ++ [name]) :: d.marks) :=
      Adds.cons (List.prefix_refl _) (Adds.refl _ d.marks)
    have hopened : Opened (key ++ [name])
        { d with
          root := put (key ++ [name]) [] d.root
          marks := .declared (key ++ [name]) :: d.marks
          header := key ++ [name] } :=
      ⟨rfl, hpending, reach_put hempty [], hclear.thawed.adds hadds,
        fun below => (hclear.below below).declare⟩
    obtain ⟨d₁, d', hpasses₁, hpasses₂, hgrows⟩ := passes_contents hsections hplain hbelow hgenuine
      hdepth hopened
    rw [← hheader] at hopen
    refine ⟨d', hopen.assemble hpasses₁ hpasses₂, ?_⟩
    refine Grows.of_below hreach hnew ?_ hgrows.pending (hadds.trans hgrows.adds)
    rw [hgrows.root, grow_put hempty]
    rfl
  · rw [if_neg hneeded] at hheader
    obtain ⟨hplainEmpty, hbelowNonempty⟩ : plain = [] ∧ below ≠ [] := by
      simpa using hneeded
    subst hplainEmpty
    have hnoPlain := writePlain_nil hplain
    have hsome : arrangeSections entries ≠ [] :=
      fun hnone => hbelowNonempty (writeSections_nil hbelow hnone)
    obtain ⟨d', hpasses, hgrows⟩ := hsections (key ++ [name]) d [] below hbelow hgenuine hdepth
      hpending hempty fun entry _ _ => ⟨rfl, hclear.below entry.1⟩
    have hheaderPasses := Passes.nil d
    rw [← hheader] at hheaderPasses
    refine ⟨d', hheaderPasses.assemble (Passes.nil d) hpasses, ?_⟩
    refine Grows.of_below hreach hnew ?_ hgrows.pending hgrows.adds
    rw [hgrows.root, hnoPlain]
    simp [grow, hsome]

/-- Reading has made a list of tables out of the one that a name has below a key. -/
structure Lists (key : Key) (name : String) (items : List Value) (inner : Table)
    (before after : Document) : Prop where
  root : after.root = put key (Pairs.set name (.list items) inner) before.root
  pending : after.pending = []
  adds : Adds (key ++ [name]) before.marks after.marks

theorem Lists.trans {key : Key} {name : String} {first second : List Value} {inner : Table}
    {d₁ d₂ d₃ : Document} (hreach : reach key d₁.root = some inner)
    (h : Lists key name first inner d₁ d₂)
    (h' : Lists key name second (Pairs.set name (.list first) inner) d₂ d₃) :
    Lists key name second inner d₁ d₃ := by
  refine ⟨?_, h'.pending, h.adds.trans h'.adds⟩
  rw [h'.root, h.root, Pairs.set_set, put_put hreach]

theorem Lists.reach {key : Key} {name : String} {items : List Value} {inner : Table}
    {d d' : Document} (h : Lists key name items inner d d')
    (hreach : Toml.reach key d.root = some inner) :
    Toml.reach key d'.root = some (Pairs.set name (.list items) inner) := by
  rw [h.root]
  exact reach_put hreach _

/-- A new list of tables is a new entry of the table that it belongs to. -/
theorem Lists.grows {key : Key} {name : String} {items : List Value} {inner : Table}
    {d d' : Document} (h : Lists key name items inner d d') (hnew : inner.lookup name = none) :
    Grows key inner [(name, .list items)] d d' := by
  refine ⟨?_, h.pending, h.adds.of_below, fun other hother hclear => ?_⟩
  · rw [h.root, Pairs.set_of_lookup_none hnew]
    rfl
  · have hne : name ≠ other := fun heq => hother (by simp [heq])
    exact hclear.beside hne fun mark hmark => (h.adds mark hmark).imp_right Mark.Under.starts

/-- The last table of a list is the one that grows. -/
theorem grow_last {key : Key} {name : String} {root inner : Table}
    (hreach : reach key root = some inner) (items : List Value) (more : Table) :
    grow (key ++ [name]) [] more
        (put key (Pairs.set name (.list (items ++ [.table []])) inner) root) =
      put key (Pairs.set name (.list (items ++ [.table more])) inner) root := by
  unfold grow
  split
  · next hmore => rw [List.isEmpty_iff.1 hmore]
  · have hchild : setChild name more (Pairs.set name (.list (items ++ [.table []])) inner) =
        Pairs.set name (.list (items ++ [.table more])) inner := by
      simp [setChild, Pairs.lookup_set, Pairs.set_set]
    rw [List.nil_append, put_snoc (reach_put hreach _), hchild, put_put hreach]

/-- The section of one table of a list adds it to the list. -/
theorem passes_item {entries : Table} (hsections : SectionsPass entries) {key : Key} {name : String}
    {texts : List (List Char)}
    (hwrite : writeListItem (keyText (key ++ [name])) (.table entries) = .ok texts)
    (hgenuine : Value.TableGenuine entries) (hdepth : sectionDepth entries ≤ nestingRoom)
    {d : Document} (hpending : d.pending = []) {inner : Table}
    (hreach : reach key d.root = some inner) {items : List Value} (hlist : HasList name items inner)
    (hthawed : Thawed (key ++ [name]) d.marks) :
    ∃ d', Passes (joinSections texts) d d' ∧
      Lists key name (items ++ [arrange (.table entries)]) inner d d' := by
  obtain ⟨plain, below, hplain, hbelow, rfl⟩ := writeListItem_table hwrite
  have hheader : headerLine (keyText (key ++ [name])) true plain below =
      '[' :: '[' :: keyText (key ++ [name]) ++ [']', ']', '\n'] := rfl
  have hopen := Passes.listHeader (snoc_ne_nil key name) hpending
    (openListItem_eq hthawed hreach hlist)
  have hcleared := Clear.cleared hthawed
  have hadds : Adds (key ++ [name]) d.marks
      (.declared (key ++ [name]) :: d.marks.clear (key ++ [name])) :=
    Adds.cons (List.prefix_refl _) (Adds.clear _ d.marks)
  have hopened : Opened (key ++ [name])
      { d with
        root := put key (Pairs.set name (.list (items ++ [.table []])) inner) d.root
        marks := .declared (key ++ [name]) :: d.marks.clear (key ++ [name])
        header := key ++ [name] } := by
    refine ⟨rfl, hpending, ?_, hthawed.adds hadds, fun below => (hcleared.below below).declare⟩
    rw [reach_snoc (reach_put hreach _)]
    simp [child, Pairs.lookup_set]
  obtain ⟨d₁, d', hpasses₁, hpasses₂, hgrows⟩ := passes_contents hsections hplain hbelow hgenuine
    hdepth hopened
  rw [← hheader] at hopen
  rw [joinSections_single, arrange]
  refine ⟨d', hopen.assemble hpasses₁ hpasses₂, ?_, hgrows.pending, hadds.trans hgrows.adds⟩
  rw [hgrows.root]
  exact grow_last hreach items (arrangeTable entries)

/-- Reading the sections of a value adds it, whichever table it belongs to. -/
def SectionPasses (value : Value) : Prop :=
  ∀ (key : Key) (name : String) (d : Document) (inner : Table) (texts : List (List Char)),
    writeSection (keyText (key ++ [name])) value = .ok texts → sectioned value = true →
    value.IsGenuine → entryDepth value ≤ nestingRoom → d.pending = [] →
    reach key d.root = some inner → inner.lookup name = none → Clear (key ++ [name]) d.marks →
    ∃ d', Passes (joinSections texts) d d' ∧ Grows key inner [(name, arrange value)] d d'

/-- Reading the sections of these tables adds them to a list. -/
def ItemsPass (items : List Value) : Prop :=
  ∀ (key : Key) (name : String) (d : Document) (inner : Table) (done : List Value)
    (texts : List (List Char)),
    writeListItems (keyText (key ++ [name])) items = .ok texts → items ≠ [] →
    items.all isTable = true → Value.AreGenuine items → itemsDepth items ≤ nestingRoom →
    d.pending = [] → reach key d.root = some inner → HasList name done inner →
    Thawed (key ++ [name]) d.marks →
    ∃ d', Passes (joinSections texts) d d' ∧
      Lists key name (done ++ arrangeItems items) inner d d'

/-- Reading the section of a table adds it to a list. -/
def ItemPasses (item : Value) : Prop :=
  ∀ (key : Key) (name : String) (d : Document) (inner : Table) (done : List Value)
    (texts : List (List Char)),
    writeListItem (keyText (key ++ [name])) item = .ok texts → isTable item = true →
    item.IsGenuine → inlineDepth item ≤ nestingRoom → d.pending = [] →
    reach key d.root = some inner → HasList name done inner → Thawed (key ++ [name]) d.marks →
    ∃ d', Passes (joinSections texts) d d' ∧ Lists key name (done ++ [arrange item]) inner d d'

theorem sectionPasses_table {entries : Table} (h : SectionsPass entries) :
    SectionPasses (.table entries) := by
  intro key name d inner texts hwrite _ hgenuine hdepth hpending hreach hnew hclear
  rw [entryDepth] at hdepth
  exact passes_table h hwrite ((Value.isGenuine_table entries).1 hgenuine) (by omega) hpending hreach
    hnew hclear

theorem sectionPasses_list {items : List Value} (h : ItemsPass items) :
    SectionPasses (.list items) := by
  intro key name d inner texts hwrite hsectioned hgenuine hdepth hpending hreach hnew hclear
  simp only [entryDepth, inlineDepth] at hdepth
  obtain ⟨hne, htables, hitems⟩ := writeSection_list hwrite hsectioned
  obtain ⟨d', hpasses, hlists⟩ := h key name d inner [] texts hitems hne htables hgenuine (by omega)
    hpending hreach (Or.inl ⟨hnew, rfl⟩) hclear.thawed
  refine ⟨d', hpasses, ?_⟩
  rw [arrange]
  exact hlists.grows hnew

theorem itemsPass_cons {item : Value} {rest : List Value} (hitem : ItemPasses item)
    (hrest : ItemsPass rest) : ItemsPass (item :: rest) := by
  intro key name d inner done texts hwrite _ htables hgenuine hdepth hpending hreach hlist hthawed
  obtain ⟨first, others, hfirst, hothers, rfl⟩ := writeListItems_cons hwrite
  rw [itemsDepth] at hdepth
  rw [List.all_cons, Bool.and_eq_true] at htables
  obtain ⟨d₁, hpasses₁, hlists₁⟩ := hitem key name d inner done first hfirst htables.1 hgenuine.1
    (by omega) hpending hreach hlist hthawed
  rw [arrangeItems]
  by_cases hnone : rest = []
  · subst hnone
    cases hothers
    exact ⟨d₁, by rwa [List.append_nil], hlists₁⟩
  · obtain ⟨d₂, hpasses₂, hlists₂⟩ := hrest key name d₁ _ (done ++ [arrange item]) others hothers
      hnone htables.2 hgenuine.2 (by omega) hlists₁.pending (hlists₁.reach hreach)
      (HasList.set name _ inner) (hthawed.adds hlists₁.adds)
    rw [List.append_assoc] at hlists₂
    exact ⟨d₂, hpasses₁.sections hpasses₂, hlists₁.trans hreach hlists₂⟩

theorem itemPasses_table {entries : Table} (h : SectionsPass entries) :
    ItemPasses (.table entries) := by
  intro key name d inner done texts hwrite _ hgenuine hdepth hpending hreach hlist hthawed
  have hentries := sectionDepth_le entries
  rw [inlineDepth] at hdepth
  exact passes_item h hwrite ((Value.isGenuine_table entries).1 hgenuine) (by omega) hpending hreach
    hlist hthawed

theorem sectionsPass_cons {name : String} {value : Value} {rest : Table}
    (hvalue : SectionPasses value) (hrest : SectionsPass rest) :
    SectionsPass ((name, value) :: rest) := by
  intro key d inner texts hwrite hgenuine hdepth hpending hreach hfree
  obtain ⟨first, others, hfirst, hothers, rfl⟩ := writeSections_cons hwrite
  rw [sectionDepth] at hdepth
  rw [arrangeSections]
  by_cases hsectioned : sectioned value = true
  · obtain ⟨hnew, hclear⟩ := hfree (name, value) List.mem_cons_self hsectioned
    rw [← keyText_append] at hfirst
    obtain ⟨d₁, hpasses₁, hgrows₁⟩ := hvalue key name d inner first hfirst hsectioned
      hgenuine.head (by omega) hpending hreach hnew hclear
    have hfree₁ : ∀ entry ∈ rest, sectioned entry.2 = true →
        (inner ++ [(name, arrange value)]).lookup entry.1 = none ∧
          Clear (key ++ [entry.1]) d₁.marks := by
      intro entry hentry hentrySectioned
      obtain ⟨hentryNew, hentryClear⟩ := hfree entry (List.mem_cons_of_mem _ hentry) hentrySectioned
      have hother := notMem_single hgenuine.notMem_tail hentry (arrange value)
      exact ⟨lookup_append_none hentryNew hother, hgrows₁.beside entry.1 hother hentryClear⟩
    obtain ⟨d₂, hpasses₂, hgrows₂⟩ := hrest key d₁ _ others hothers hgenuine.tail (by omega)
      hgrows₁.pending (hgrows₁.reach hreach) hfree₁
    rw [if_pos hsectioned]
    exact ⟨d₂, hpasses₁.sections hpasses₂, hgrows₁.trans hreach hgrows₂⟩
  · have hplain : sectioned value = false := by simpa using hsectioned
    obtain ⟨d', hpasses, hgrows⟩ := hrest key d inner others hothers hgenuine.tail (by omega)
      hpending hreach fun entry hentry => hfree entry (List.mem_cons_of_mem _ hentry)
    rw [writeSection_plain hfirst hplain, if_neg hsectioned]
    exact ⟨d', hpasses, hgrows⟩

mutual

theorem sectionPasses : ∀ value : Value, SectionPasses value
  | .table entries => sectionPasses_table (sectionsPass entries)
  | .list items => sectionPasses_list (itemsPass items)
  | .null | .bool _ | .int _ | .float _ | .text _ | .date _ | .time _ | .moment _ => by
    intro key name d inner texts hwrite hsectioned
    cases hsectioned

theorem itemsPass : ∀ items : List Value, ItemsPass items
  | [] => by
    intro key name d inner done texts hwrite hne
    exact absurd rfl hne
  | item :: rest => itemsPass_cons (itemPasses item) (itemsPass rest)

theorem itemPasses : ∀ item : Value, ItemPasses item
  | .table entries => itemPasses_table (sectionsPass entries)
  | .null | .bool _ | .int _ | .float _ | .text _ | .list _ | .date _ | .time _ | .moment _ => by
    intro key name d inner done texts hwrite htable
    cases htable

/-- Written sections are read back, whichever entries they hold. -/
theorem sectionsPass : ∀ entries : List (String × Value), SectionsPass entries
  | [] => by
    intro key d inner texts hwrite hgenuine hdepth hpending hreach hfree
    cases hwrite
    exact ⟨d, Passes.nil d, Grows.refl hpending key inner⟩
  | (name, value) :: rest => sectionsPass_cons (sectionPasses value) (sectionsPass rest)

end

end MarkupTidy.Toml
