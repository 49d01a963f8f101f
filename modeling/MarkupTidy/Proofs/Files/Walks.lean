import MarkupTidy.Files.Write
import MarkupTidy.Proofs.Text.Pieces

/-!
Walks in a tree that changes. A walk looks at the directories and links on its way and at what lies
at its end. So a change at places that are no directories, and through which no link leads the walk,
leaves it as it was, up to what is found at the end.
-/
namespace MarkupTidy

namespace FileTree

/-- The places of the links that a walk follows before its last part. -/
def linksOn (tree : FileTree) (links : Nat) (here : Location) (left : List String) :
    List Location :=
  match left with
  | [] => []
  | part :: rest =>
    if part = "" ∨ part = "." then linksOn tree links here rest
    else if part = ".." then linksOn tree links here.dropLast rest
    else
      match tree.node? (here ++ [part]) with
      | some (.link target) =>
        match links with
        | 0 => []
        | links + 1 =>
          if rest.isEmpty then []
          else
            (here ++ [part]) :: linksOn tree links (walkStart here target) (steps target ++ rest)
      | _ => linksOn tree links (here ++ [part]) rest
  termination_by (links, left.length)

/-- What is found at a place. -/
def foundAt (tree : FileTree) (place : Location) : Found :=
  match tree.node? place with
  | some node => .node place node
  | none => .vacant place

/-- The last part names something in a directory. -/
def EndsInName (left : List String) : Prop :=
  ∃ name, left.getLast? = some name ∧ name ≠ "" ∧ name ≠ "." ∧ name ≠ ".."

theorem EndsInName.tail {part : String} {rest : List String} (h : EndsInName (part :: rest))
    (hpart : (part = "" ∨ part = ".") ∨ part = ".." ∨ rest ≠ []) : EndsInName rest := by
  obtain ⟨name, hlast, hname⟩ := h
  cases rest with
  | nil =>
    simp only [List.getLast?_singleton, Option.some.injEq] at hlast
    subst hlast
    simp [hname] at hpart
  | cons next more => exact ⟨name, by simpa using hlast, hname⟩

theorem EndsInName.append {rest : List String} (h : EndsInName rest) (more : List String) :
    EndsInName (more ++ rest) := by
  obtain ⟨name, hlast, hname⟩ := h
  exact ⟨name, by rw [List.getLast?_append, hlast]; rfl, hname⟩

/-- Such a walk does not ask for a directory at its end. -/
theorem EndsInName.ne_blank {rest : List String} (h : EndsInName rest) : rest ≠ [""] := by
  obtain ⟨name, hlast, hname, -⟩ := h
  rintro rfl
  exact hname (Option.some.inj hlast).symm

theorem EndsInName.walkFromMissing {left : List String} (h : EndsInName left) (here : Location) :
    MarkupTidy.FileTree.walkFromMissing here left = .error .noEntry := by
  obtain ⟨name, hlast, hblank, hdot, -⟩ := h
  have hstays : (left.all fun part => part == "" || part == ".") = false := by
    rw [List.all_eq_false]
    exact ⟨name, List.mem_of_getLast? hlast, by simp [hblank, hdot]⟩
  rw [FileTree.walkFromMissing, hstays]
  rfl

theorem linksOn_blank (tree : FileTree) (links : Nat) (here : Location) {part : String}
    (rest : List String) (hblank : part = "" ∨ part = ".") :
    tree.linksOn links here (part :: rest) = tree.linksOn links here rest := by
  rw [linksOn, if_pos hblank]

theorem linksOn_up (tree : FileTree) (links : Nat) (here : Location) (rest : List String) :
    tree.linksOn links here (".." :: rest) = tree.linksOn links here.dropLast rest := by
  rw [linksOn, if_neg (by decide), if_pos rfl]

theorem linksOn_last (tree : FileTree) (links : Nat) (here : Location) {name : String}
    (hblank : ¬ (name = "" ∨ name = ".")) (hup : ¬ name = "..") :
    tree.linksOn links here [name] = [] := by
  rw [linksOn, if_neg hblank, if_neg hup]
  split
  · split <;> rfl
  · rw [linksOn]

theorem linksOn_link {tree : FileTree} (links : Nat) {here : Location} {part target : String}
    {rest : List String} (hblank : ¬ (part = "" ∨ part = ".")) (hup : ¬ part = "..")
    (hnode : tree.node? (here ++ [part]) = some (.link target)) (hrest : rest.isEmpty = false) :
    tree.linksOn (links + 1) here (part :: rest) =
      (here ++ [part]) :: tree.linksOn links (walkStart here target) (steps target ++ rest) := by
  rw [linksOn, if_neg hblank, if_neg hup, hnode]
  simp only [hrest, Bool.false_eq_true, if_false]

theorem linksOn_other {tree : FileTree} (links : Nat) {here : Location} {part : String}
    (rest : List String) (hblank : ¬ (part = "" ∨ part = ".")) (hup : ¬ part = "..")
    (hnode : ∀ target, tree.node? (here ++ [part]) ≠ some (.link target)) :
    tree.linksOn links here (part :: rest) = tree.linksOn links (here ++ [part]) rest := by
  rw [linksOn, if_neg hblank, if_neg hup]
  split
  · next target hlink => exact absurd hlink (hnode target)
  · rfl

/-- A walk with parts left stands in a directory. -/
theorem walkFrom_stands {tree : FileTree} {purpose : Purpose} {links : Nat} {here : Location}
    {left : List String} {found : Found} (h : tree.walkFrom purpose links here left = .ok found)
    (hleft : left ≠ []) : (tree.node? here).any Node.isDirectory = true := by
  cases left with
  | nil => exact absurd rfl hleft
  | cons part rest =>
    rw [walkFrom] at h
    split at h
    · next hhere => exact hhere
    · cases h

theorem walkFrom_last {tree : FileTree} {purpose : Purpose} (links : Nat) {here : Location}
    {name : String} (hhere : (tree.node? here).any Node.isDirectory = true)
    (hblank : ¬ (name = "" ∨ name = ".")) (hup : ¬ name = "..")
    (hshort : ¬ isNameTooLong name = true)
    (hpurpose : purpose = .link ∨ ∀ target, tree.node? (here ++ [name]) ≠ some (.link target)) :
    tree.walkFrom purpose links here [name] = .ok (tree.foundAt (here ++ [name])) := by
  rw [walkFrom, if_pos hhere, if_neg hblank, if_neg hup, if_neg (by simp), if_neg hshort, foundAt]
  cases hnode : tree.node? (here ++ [name]) with
  | none => rfl
  | some node =>
    cases node with
    | link target =>
      have hlink : purpose = .link := hpurpose.resolve_right fun hnot => hnot target hnode
      subst hlink
      rfl
    | directory | file file => simp only [walkFrom, hnode]

/-- A walk is the same in another tree, up to what is found at its end. -/
def SameWay (tree tree' : FileTree) (links : Nat) (here : Location) (left : List String)
    (found : Found) : Prop :=
  ∃ place, found = tree.foundAt place ∧
    tree'.linksOn links here left = tree.linksOn links here left ∧
    ∀ purpose, (purpose = .link ∨ ∀ target, tree'.node? place ≠ some (.link target)) →
      tree'.walkFrom purpose links here left = .ok (tree'.foundAt place)

section SameWay

variable {tree tree' : FileTree} {links : Nat} {here : Location} {part : String}
  {rest : List String} {found : Found}

theorem SameWay.last (hhere : (tree'.node? here).any Node.isDirectory = true)
    (hblank : ¬ (part = "" ∨ part = ".")) (hup : ¬ part = "..")
    (hshort : ¬ isNameTooLong part = true) (hfound : found = tree.foundAt (here ++ [part])) :
    SameWay tree tree' links here [part] found := by
  refine ⟨here ++ [part], hfound, ?_, fun purpose => walkFrom_last links hhere hblank hup hshort⟩
  rw [linksOn_last _ _ _ hblank hup, linksOn_last _ _ _ hblank hup]

theorem SameWay.stay (h : SameWay tree tree' links here rest found)
    (hhere : (tree'.node? here).any Node.isDirectory = true) (hblank : part = "" ∨ part = ".") :
    SameWay tree tree' links here (part :: rest) found := by
  obtain ⟨place, hfound, hlinks, hwalks⟩ := h
  refine ⟨place, hfound, ?_, fun purpose hpurpose => ?_⟩
  · rw [linksOn_blank _ _ _ _ hblank, linksOn_blank _ _ _ _ hblank, hlinks]
  · rw [walkFrom, if_pos hhere, if_pos hblank, hwalks purpose hpurpose]

theorem SameWay.up (h : SameWay tree tree' links here.dropLast rest found)
    (hhere : (tree'.node? here).any Node.isDirectory = true) :
    SameWay tree tree' links here (".." :: rest) found := by
  obtain ⟨place, hfound, hlinks, hwalks⟩ := h
  refine ⟨place, hfound, ?_, fun purpose hpurpose => ?_⟩
  · rw [linksOn_up, linksOn_up, hlinks]
  · rw [walkFrom, if_pos hhere, if_neg (by decide), if_pos rfl, hwalks purpose hpurpose]

/-- A link is followed that both trees have. -/
theorem SameWay.follow {target : String}
    (h : SameWay tree tree' links (walkStart here target) (steps target ++ rest) found)
    (hhere : (tree'.node? here).any Node.isDirectory = true)
    (hblank : ¬ (part = "" ∨ part = ".")) (hup : ¬ part = "..")
    (hshort : ¬ isNameTooLong part = true) (hrest : rest.isEmpty = false) (hends : EndsInName rest)
    (hnode : tree.node? (here ++ [part]) = some (.link target))
    (hnode' : tree'.node? (here ++ [part]) = some (.link target)) :
    SameWay tree tree' (links + 1) here (part :: rest) found := by
  obtain ⟨place, hfound, hlinks, hwalks⟩ := h
  refine ⟨place, hfound, ?_, fun purpose hpurpose => ?_⟩
  · rw [linksOn_link links hblank hup hnode hrest, linksOn_link links hblank hup hnode' hrest,
      hlinks]
  · rw [walkFrom, if_pos hhere, if_neg hblank, if_neg hup,
      if_neg fun hdirectory => hends.ne_blank hdirectory.2, if_neg hshort, hnode']
    simp only [hrest, Bool.false_and, Bool.false_eq_true, if_false]
    exact hwalks purpose hpurpose

/-- The walk goes on in what both trees have and is no link. -/
theorem SameWay.enter {node : Node} (h : SameWay tree tree' links (here ++ [part]) rest found)
    (hhere : (tree'.node? here).any Node.isDirectory = true)
    (hblank : ¬ (part = "" ∨ part = ".")) (hup : ¬ part = "..")
    (hshort : ¬ isNameTooLong part = true) (hends : EndsInName rest)
    (hnode : tree.node? (here ++ [part]) = some node)
    (hnode' : tree'.node? (here ++ [part]) = some node)
    (hother : ∀ target, tree.node? (here ++ [part]) ≠ some (.link target)) :
    SameWay tree tree' links here (part :: rest) found := by
  obtain ⟨place, hfound, hlinks, hwalks⟩ := h
  have hother' : ∀ target, tree'.node? (here ++ [part]) ≠ some (.link target) := by
    rwa [hnode', ← hnode]
  refine ⟨place, hfound, ?_, fun purpose hpurpose => ?_⟩
  · rw [linksOn_other links _ hblank hup hother, linksOn_other links _ hblank hup hother', hlinks]
  · rw [walkFrom, if_pos hhere, if_neg hblank, if_neg hup,
      if_neg fun hdirectory => hends.ne_blank hdirectory.2, if_neg hshort, hnode']
    cases node with
    | link target => exact absurd hnode (hother target)
    | directory | file file => exact hwalks purpose hpurpose

end SameWay

/-- A change of the tree at places that are no directories, and through which the walk does not go,
leaves the walk as it is, up to what is found at its end. -/
theorem walkFrom_changed {tree tree' : FileTree} {links : Nat} {here : Location}
    {left : List String} {found : Found} (hwalk : tree.walkFrom .link links here left = .ok found)
    (hends : EndsInName left)
    (hchanged : ∀ place, tree'.node? place = tree.node? place ∨
      (tree.node? place).any Node.isDirectory = false ∧ place ∉ tree.linksOn links here left) :
    SameWay tree tree' links here left found := by
  -- A directory that the walk stands in has not changed.
  have hsame : ∀ {place}, (tree.node? place).any Node.isDirectory = true →
      tree'.node? place = tree.node? place := by
    intro place hplace
    refine (hchanged place).resolve_right fun ⟨hnot, _⟩ => ?_
    rw [hplace] at hnot
    cases hnot
  have hstands : ∀ {place}, (tree.node? place).any Node.isDirectory = true →
      (tree'.node? place).any Node.isDirectory = true := by
    intro place hplace
    rwa [hsame hplace]
  fun_induction FileTree.walkFrom tree .link links here left with
  | case1 | case2 =>
    obtain ⟨name, hlast, -⟩ := hends
    cases hlast
  | case3 links here part rest hhere hblank ih =>
    rw [linksOn_blank _ _ _ _ hblank] at hchanged
    exact (ih hwalk (hends.tail (Or.inl hblank)) hchanged).stay (hstands hhere) hblank
  | case4 links here rest hhere hblank ih =>
    rw [linksOn_up] at hchanged
    exact (ih hwalk (hends.tail (Or.inr (Or.inl rfl))) hchanged).up (hstands hhere)
  | case5 links here part rest hhere hblank hup hpurpose => cases hpurpose.1
  | case6 | case8 | case10 | case13 => cases hwalk
  | case7 links here part rest hhere hblank hup _ hshort hnode hrest =>
    obtain rfl := List.isEmpty_iff.1 hrest
    refine .last (hstands hhere) hblank hup hshort ?_
    rw [foundAt, hnode]
    exact (Except.ok.inj hwalk).symm
  | case9 links here part rest hhere hblank hup _ hshort target hnode hrest =>
    simp only [Bool.and_eq_true, List.isEmpty_iff] at hrest
    obtain ⟨rfl, -⟩ := hrest
    refine .last (hstands hhere) hblank hup hshort ?_
    rw [foundAt, hnode]
    exact (Except.ok.inj hwalk).symm
  | case11 here part rest hhere hblank hup _ hshort target hnode hrest links ih =>
    have hmore : rest.isEmpty = false := by simpa using hrest
    have hends' : EndsInName rest := hends.tail (Or.inr (Or.inr (by simpa using hmore)))
    rw [linksOn_link links hblank hup hnode hmore] at hchanged
    have hlink : tree'.node? (here ++ [part]) = some (.link target) := by
      rw [← hnode]
      exact (hchanged _).resolve_right fun ⟨_, hnot⟩ => hnot List.mem_cons_self
    have hway := ih hwalk (hends'.append _) fun place =>
      (hchanged place).imp_right (And.imp_right fun hnot hmem => hnot (List.mem_cons_of_mem _ hmem))
    exact hway.follow (hstands hhere) hblank hup hshort hmore hends' hnode hlink
  | case12 links here part rest hhere hblank hup _ hshort node hlink hnode ih =>
    cases rest with
    | nil =>
      refine .last (hstands hhere) hblank hup hshort ?_
      rw [walkFrom, hnode] at hwalk
      rw [foundAt, hnode]
      exact (Except.ok.inj hwalk).symm
    | cons next more =>
      have hother : ∀ target, tree.node? (here ++ [part]) ≠ some (.link target) := by
        intro target htarget
        exact hlink target (Option.some.inj (hnode.symm.trans htarget))
      have hends' : EndsInName (next :: more) := hends.tail (Or.inr (Or.inr (by simp)))
      have hnode' : tree'.node? (here ++ [part]) = some node := by
        rw [hsame (walkFrom_stands hwalk (List.cons_ne_nil next more)), hnode]
      rw [linksOn_other links _ hblank hup hother] at hchanged
      exact (ih hwalk hends' hchanged).enter (hstands hhere) hblank hup hshort hends' hnode hnode'
        hother

theorem foundAt_eq_node {tree : FileTree} {place other : Location} {node : Node}
    (h : tree.foundAt place = .node other node) :
    place = other ∧ tree.node? other = some node := by
  unfold foundAt at h
  cases hnode : tree.node? place with
  | none =>
    rw [hnode] at h
    cases h
  | some found =>
    rw [hnode] at h
    cases h
    exact ⟨rfl, hnode⟩

theorem foundAt_inj {tree : FileTree} {place other : Location}
    (h : tree.foundAt place = tree.foundAt other) : place = other := by
  unfold foundAt at h
  split at h <;> split at h <;> cases h <;> rfl

theorem foundAt_of_some {tree : FileTree} {place : Location} {node : Node}
    (h : tree.node? place = some node) : tree.foundAt place = .node place node := by
  rw [foundAt, h]

theorem ne_nil_of_node? {tree : FileTree} {place : Location}
    (h : (tree.node? place).any Node.isDirectory = false) : place ≠ [] := by
  rintro rfl
  cases h

theorem walkFrom_nil (tree : FileTree) (purpose : Purpose) (links : Nat) (here : Location) :
    tree.walkFrom purpose links here [] = .ok (tree.foundAt here) := by
  rw [walkFrom, foundAt]
  cases tree.node? here <;> rfl

theorem node?_root (tree : FileTree) : tree.node? [] = some .directory := rfl

theorem node?_set_self {tree : FileTree} {place : Location} (node : Node) (h : place ≠ []) :
    (tree.set place node).node? place = some node := by
  rw [node?_set _ _ _ _ h, if_pos rfl]

theorem node?_set_ne {tree : FileTree} {place other : Location} (node : Node) (h : other ≠ place) :
    (tree.set place node).node? other = tree.node? other := by
  by_cases hroot : other = []
  · simp [node?, hroot]
  · rw [node?_set _ _ _ _ hroot, if_neg h]

theorem node?_of_mem_linksOn {tree : FileTree} {links : Nat} {here place : Location}
    {left : List String} (h : place ∈ tree.linksOn links here left) :
    ∃ target, tree.node? place = some (.link target) := by
  fun_induction FileTree.linksOn tree links here left with
  | case1 | case4 | case5 => cases h
  | case2 links here part rest hblank ih | case3 links here rest hblank ih => exact ih h
  | case6 here part rest hblank hup target hnode links hrest ih =>
    rcases List.mem_cons.1 h with rfl | hmore
    · exact ⟨target, hnode⟩
    · exact ih hmore
  | case7 links here part rest hblank hup hnode ih => exact ih h

/-- A walk that goes on through a link stops there when a file has taken the link's place. -/
theorem walkFrom_stopped {tree tree' : FileTree} {purpose : Purpose} {place : Location}
    {link : String} {file : File} {links : Nat} {here : Location} {left : List String}
    {found : Found} (hpurpose : purpose ≠ .fileTarget)
    (hlink : tree.node? place = some (.link link)) (hfile : tree'.node? place = some (.file file))
    (hkept : ∀ {other : Location} {node : Node}, other ≠ place →
      tree.node? other = some node → tree'.node? other = some node)
    (h : tree.walkFrom .link links here left = .ok found)
    (hmem : place ∈ tree.linksOn links here left) :
    tree'.walkFrom purpose links here left = .error .notADirectory := by
  have hstands : ∀ {other}, (tree.node? other).any Node.isDirectory = true →
      (tree'.node? other).any Node.isDirectory = true := by
    intro other hdirectory
    obtain ⟨node, hnode, hnodeIs⟩ := (Option.any_eq_true ..).1 hdirectory
    have hne : other ≠ place := by
      rintro rfl
      rw [hlink] at hnode
      cases hnode
      cases hnodeIs
    rw [hkept hne hnode]
    exact hnodeIs
  fun_induction FileTree.walkFrom tree .link links here left with
  | case1 | case2 =>
    rw [linksOn] at hmem
    cases hmem
  | case3 links here part rest hhere hblank ih =>
    rw [linksOn_blank _ _ _ _ hblank] at hmem
    rw [walkFrom, if_pos (hstands hhere), if_pos hblank, ih h hmem]
  | case4 links here rest hhere hblank ih =>
    rw [linksOn_up] at hmem
    rw [walkFrom, if_pos (hstands hhere), if_neg hblank, if_pos rfl, ih h hmem]
  | case5 links here part rest hhere hblank hup hdirectory => cases hdirectory.1
  | case6 | case8 | case10 | case13 => cases h
  | case7 links here part rest hhere hblank hup _ hshort hnode hrest =>
    obtain rfl := List.isEmpty_iff.1 hrest
    rw [linksOn_last _ _ _ hblank hup] at hmem
    cases hmem
  | case9 links here part rest hhere hblank hup _ hshort target hnode hrest =>
    simp only [Bool.and_eq_true, List.isEmpty_iff] at hrest
    obtain ⟨rfl, -⟩ := hrest
    rw [linksOn_last _ _ _ hblank hup] at hmem
    cases hmem
  | case11 here part rest hhere hblank hup _ hshort target hnode hrest links ih =>
    have hmore : rest.isEmpty = false := by simpa using hrest
    rw [linksOn_link links hblank hup hnode hmore] at hmem
    rw [walkFrom, if_pos (hstands hhere), if_neg hblank, if_neg hup,
      if_neg fun hdirectory => hpurpose hdirectory.1, if_neg hshort]
    by_cases hplace : here ++ [part] = place
    · rw [hplace, hfile]
      dsimp only
      obtain ⟨next, more, rfl⟩ := List.exists_cons_of_ne_nil (List.isEmpty_eq_false_iff.1 hmore)
      rw [walkFrom, if_neg (by rw [hfile]; exact Bool.false_ne_true)]
    · rw [hkept hplace hnode]
      simp only [hmore, Bool.false_and, Bool.false_eq_true, if_false]
      exact ih h ((List.mem_cons.1 hmem).resolve_left fun heq => hplace heq.symm)
  | case12 links here part rest hhere hblank hup _ hshort node hnot hnode ih =>
    have hnolink : ∀ target, tree.node? (here ++ [part]) ≠ some (.link target) :=
      fun target htarget => hnot target (Option.some.inj (hnode.symm.trans htarget))
    have hplace : here ++ [part] ≠ place := by
      rintro rfl
      exact hnolink link hlink
    rw [linksOn_other links _ hblank hup hnolink] at hmem
    rw [walkFrom, if_pos (hstands hhere), if_neg hblank, if_neg hup,
      if_neg fun hdirectory => hpurpose hdirectory.1, if_neg hshort, hkept hplace hnode]
    cases node with
    | link target => exact absurd rfl (hnot target)
    | directory | file other => exact ih h hmem

theorem EndsInName.getLast?_append {rest : List String} (h : EndsInName rest)
    (more : List String) : (more ++ rest).getLast? = rest.getLast? := by
  obtain ⟨name, hlast, -⟩ := h
  rw [List.getLast?_append, hlast]
  rfl

theorem EndsInName.getLast?_cons {rest : List String} (h : EndsInName rest) (part : String) :
    (part :: rest).getLast? = rest.getLast? :=
  h.getLast?_append [part]

/-- A walk that ends in a name ends at a place of this name. -/
theorem walkFrom_ends {tree : FileTree} {links : Nat} {here : Location} {left : List String}
    {found : Found} (h : tree.walkFrom .link links here left = .ok found)
    (hends : EndsInName left) :
    ∃ place, found = tree.foundAt place ∧ place.getLast? = left.getLast? := by
  have hlast : ∀ (here : Location) (part : String), (here ++ [part]).getLast? = [part].getLast? :=
    fun here part => by rw [List.getLast?_concat, List.getLast?_singleton]
  fun_induction FileTree.walkFrom tree .link links here left with
  | case1 | case2 =>
    obtain ⟨name, hnone, -⟩ := hends
    cases hnone
  | case3 links here part rest hhere hblank ih =>
    have hends' := hends.tail (Or.inl hblank)
    rw [hends'.getLast?_cons]
    exact ih h hends'
  | case4 links here rest hhere hblank ih =>
    have hends' := hends.tail (Or.inr (Or.inl rfl))
    rw [hends'.getLast?_cons]
    exact ih h hends'
  | case5 | case6 | case8 | case10 | case13 => cases h
  | case7 links here part rest hhere hblank hup _ hshort hnode hrest =>
    obtain rfl := List.isEmpty_iff.1 hrest
    refine ⟨here ++ [part], ?_, hlast here part⟩
    rw [foundAt, hnode]
    exact (Except.ok.inj h).symm
  | case9 links here part rest hhere hblank hup _ hshort target hnode hrest =>
    simp only [Bool.and_eq_true, List.isEmpty_iff] at hrest
    obtain ⟨rfl, -⟩ := hrest
    refine ⟨here ++ [part], ?_, hlast here part⟩
    rw [foundAt, hnode]
    exact (Except.ok.inj h).symm
  | case11 here part rest hhere hblank hup _ hshort target hnode hrest links ih =>
    have hmore : rest.isEmpty = false := by simpa using hrest
    have hends' : EndsInName rest := hends.tail (Or.inr (Or.inr (by simpa using hmore)))
    obtain ⟨place, hfound, hplace⟩ := ih h (hends'.append _)
    rw [hends'.getLast?_append] at hplace
    rw [hends'.getLast?_cons]
    exact ⟨place, hfound, hplace⟩
  | case12 links here part rest hhere hblank hup _ hshort node hlink hnode ih =>
    cases rest with
    | nil =>
      rw [walkFrom_nil] at h
      exact ⟨here ++ [part], (Except.ok.inj h).symm, hlast here part⟩
    | cons next more =>
      have hends' : EndsInName (next :: more) := hends.tail (Or.inr (Or.inr (by simp)))
      rw [hends'.getLast?_cons]
      exact ih h hends'

/-- A walk ends at nothing only where nothing is. -/
theorem walkFrom_vacant {tree : FileTree} {purpose : Purpose} {links : Nat}
    {here place : Location} {left : List String}
    (h : tree.walkFrom purpose links here left = .ok (.vacant place)) :
    tree.node? place = none := by
  fun_induction FileTree.walkFrom tree purpose links here left with
  | case1 | case5 | case6 | case8 | case9 | case10 | case13 => cases h
  | case2 links here hnode =>
    cases h
    exact hnode
  | case7 links here part rest hhere hblank hup hdirectory hshort hnode =>
    cases h
    exact hnode
  | case3 links here part rest hhere hblank ih | case4 links here rest hhere hblank ih
  | case11 here part rest hhere hblank hup hdirectory hshort target hnode hrest links ih
  | case12 links here part rest hhere hblank hup hdirectory hshort node hlink hnode ih => exact ih h

/-- A path leads to nothing only where nothing is. -/
theorem walk_vacant {tree : FileTree} {purpose : Purpose} {directory place : Location}
    {text : String} (h : tree.walk purpose directory text = .ok (.vacant place)) :
    tree.node? place = none := by
  unfold walk at h
  split at h
  · cases h
  · split at h
    · cases h
    · dsimp only at h
      split at h
      · unfold walkFromMissing at h
        dsimp only at h
        split at h <;> cases h
      · exact walkFrom_vacant h

/-- A walk ends at a node only where this node is. -/
theorem walkFrom_node {tree : FileTree} {purpose : Purpose} {links : Nat} {here place : Location}
    {left : List String} {node : Node}
    (h : tree.walkFrom purpose links here left = .ok (.node place node)) :
    tree.node? place = some node := by
  fun_induction FileTree.walkFrom tree purpose links here left with
  | case2 | case5 | case6 | case7 | case8 | case10 | case13 => cases h
  | case1 links here node hnode =>
    cases h
    exact hnode
  | case9 links here part rest hhere hblank hup hpurpose hshort target hnode hrest =>
    cases h
    exact hnode
  | case3 links here part rest hhere hblank ih | case4 links here rest hhere hblank ih
  | case11 here part rest hhere hblank hup hpurpose hshort target hnode hrest links ih
  | case12 links here part rest hhere hblank hup hpurpose hshort node hlink hnode ih => exact ih h

/-- The node at the end of a path is there, or is the directory that was taken away. -/
theorem walk_node {tree : FileTree} {purpose : Purpose} {directory place : Location}
    {text : String} {node : Node} (h : tree.walk purpose directory text = .ok (.node place node)) :
    tree.node? place = some node ∨ tree.node? place = none ∧ node = .directory := by
  unfold walk at h
  split at h
  · cases h
  · split at h
    · cases h
    · dsimp only at h
      split at h
      · next hnone =>
        unfold walkFromMissing at h
        dsimp only at h
        split at h
        · cases h
          exact Or.inr ⟨Option.isNone_iff_eq_none.1 hnone, rfl⟩
        · cases h
      · exact Or.inl (walkFrom_node h)

end FileTree

namespace Path

/-- A name may stand behind the text. -/
def IsOpen (text : List Char) : Prop := text = [] ∨ text.getLast? = some '/'

theorem IsOpen.append {front : List Char} (h : IsOpen front) {before : List Char}
    (hbefore : IsOpen before) : IsOpen (before ++ front) := by
  rcases h with rfl | hlast
  · rwa [List.append_nil]
  · exact Or.inr (by rw [List.getLast?_append, hlast]; rfl)

theorem intercalate_name (parts : List (List Char)) (name : List Char) :
    ∃ front, List.intercalate ['/'] (parts ++ [name]) = front ++ name ∧ IsOpen front := by
  induction parts with
  | nil => exact ⟨[], by simp [List.intercalate], Or.inl rfl⟩
  | cons part rest ih =>
    obtain ⟨front, hrest, hopen⟩ := ih
    refine ⟨part ++ ['/'] ++ front, ?_, hopen.append (Or.inr (by simp))⟩
    have hcons : List.intercalate ['/'] (part :: (rest ++ [name])) =
        part ++ (['/'] ++ List.intercalate ['/'] (rest ++ [name])) := by
      cases rest <;> simp [List.intercalate, List.intersperse]
    rw [List.cons_append, hcons, hrest]
    simp

/-- The text of a path in a directory ends in its name, behind a slash if anything. -/
theorem text_child (p : Path) (name : String) :
    ∃ front, (p.child name).text.toList = front ++ name.toList ∧ IsOpen front := by
  obtain ⟨front, hparts, hopen⟩ := intercalate_name (p.parts.map String.toList) name.toList
  have hanchor : IsOpen p.anchor.text.toList := by
    cases p.anchor
    · exact Or.inl rfl
    · exact Or.inr rfl
    · exact Or.inr rfl
  refine ⟨p.anchor.text.toList ++ front, ?_, hopen.append hanchor⟩
  have hsome : ¬ ((p.child name).anchor = .none ∧ (p.child name).parts = []) := by simp [child]
  rw [text, if_neg hsome, String.toList_append, String.toList_intercalate]
  simp only [child, List.map_append, List.map_cons, List.map_nil]
  rw [show "/".toList = ['/'] from rfl, hparts, List.append_assoc]

theorem getLast?_split_child (p : Path) {name : String} (hslash : '/' ∉ name.toList) :
    (split (p.child name).text).getLast? = some name := by
  have hwhole : Text.pieces isSlash name.toList = [name.toList] :=
    Text.pieces_of_notMem hslash
  obtain ⟨front, htext, hopen⟩ := text_child p name
  rw [split, htext]
  rcases hopen with rfl | hlast
  · simp [hwhole]
  · obtain ⟨before, rfl⟩ := List.getLast?_eq_some_iff.1 hlast
    rw [List.append_assoc, List.singleton_append, Text.pieces_append rfl, hwhole]
    simp

end Path

theorem FileTree.getLast?_steps_child (p : Path) {name : String} (hslash : '/' ∉ name.toList)
    (hname : name ≠ "") : (FileTree.steps (p.child name).text).getLast? = some name := by
  have hlast := Path.getLast?_split_child p hslash
  obtain ⟨parts, hparts⟩ := List.getLast?_eq_some_iff.1 hlast
  have hdirectory : ((Path.split (p.child name).text).getLast? = some "") = False := by
    simp [hlast, hname]
  simp only [FileTree.steps, hdirectory, decide_false, Bool.false_and, Bool.false_eq_true, if_false]
  rw [hparts]
  simp [hname]

/-- A walk to a file in a directory ends in the file's name. -/
theorem FileTree.endsInName_child (p : Path) {name : String} (hslash : '/' ∉ name.toList)
    (hname : name ≠ "" ∧ name ≠ "." ∧ name ≠ "..") :
    FileTree.EndsInName (FileTree.steps (p.child name).text) :=
  ⟨name, FileTree.getLast?_steps_child p hslash hname.1, hname⟩

end MarkupTidy
