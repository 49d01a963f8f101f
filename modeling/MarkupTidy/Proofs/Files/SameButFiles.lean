import MarkupTidy.Proofs.Files.Replaced

/-!
Trees that differ in what their files hold. Files are the ends of paths and never on the way, so
every path leads the same way in both trees.
-/
namespace MarkupTidy

namespace FileTree

/-- A tree that differs from another one in the contents of files alone. -/
def SameButFiles (tree tree' : FileTree) : Prop :=
  ∀ place, tree'.node? place = tree.node? place ∨
    ∃ file file', tree.node? place = some (.file file) ∧ tree'.node? place = some (.file file')

/-- What a tree holds where something was found. -/
def renewed (tree : FileTree) : Found → Found
  | .node place node => .node place ((tree.node? place).getD node)
  | .vacant place => .vacant place

namespace SameButFiles

variable {tree tree' : FileTree}

theorem set_file {place : Location} {file : File} (hnode : tree.node? place = some (.file file))
    (other : File) : SameButFiles tree (tree.set place (.file other)) := by
  have hroot : place ≠ [] := ne_nil_of_node? (by rw [hnode]; rfl)
  intro somewhere
  by_cases hplace : somewhere = place
  · subst hplace
    exact Or.inr ⟨file, other, hnode, node?_set_self _ hroot⟩
  · exact Or.inl (node?_set_ne _ hplace)

theorem symm (h : SameButFiles tree tree') : SameButFiles tree' tree := by
  intro place
  rcases h place with hsame | ⟨file, file', hnode, hnode'⟩
  · exact Or.inl hsame.symm
  · exact Or.inr ⟨file', file, hnode', hnode⟩

theorem isDirectory_iff (h : SameButFiles tree tree') (place : Location) :
    (tree'.node? place).any Node.isDirectory = (tree.node? place).any Node.isDirectory := by
  rcases h place with hsame | ⟨file, file', hnode, hnode'⟩
  · rw [hsame]
  · rw [hnode, hnode']
    rfl

theorem node?_eq_none_iff (h : SameButFiles tree tree') (place : Location) :
    tree'.node? place = none ↔ tree.node? place = none := by
  rcases h place with hsame | ⟨file, file', hnode, hnode'⟩
  · rw [hsame]
  · simp [hnode, hnode']

theorem node?_eq_link_iff (h : SameButFiles tree tree') (place : Location) (target : String) :
    tree'.node? place = some (.link target) ↔ tree.node? place = some (.link target) := by
  rcases h place with hsame | ⟨file, file', hnode, hnode'⟩
  · rw [hsame]
  · simp [hnode, hnode']

/-- A walk goes the same way whatever the files hold. -/
theorem walkFrom_eq (h : SameButFiles tree tree') (purpose : Purpose) (links : Nat)
    (here : Location) (left : List String) :
    tree'.walkFrom purpose links here left =
      (tree.walkFrom purpose links here left).map tree'.renewed := by
  fun_induction FileTree.walkFrom tree purpose links here left with
  | case1 links here node hnode =>
    rw [walkFrom]
    cases hnode' : tree'.node? here with
    | none =>
      rw [(h.node?_eq_none_iff here).1 hnode'] at hnode
      cases hnode
    | some node' => simp [Except.map, renewed, hnode']
  | case2 links here hnode =>
    rw [walkFrom, (h.node?_eq_none_iff here).2 hnode]
    rfl
  | case3 links here part rest hhere hblank ih =>
    rw [walkFrom, h.isDirectory_iff, if_pos hhere, if_pos hblank, ih]
  | case4 links here rest hhere hblank ih =>
    rw [walkFrom, h.isDirectory_iff, if_pos hhere, if_neg hblank, if_pos rfl, ih]
  | case5 links here part rest hhere hblank hup hpurpose =>
    rw [walkFrom, h.isDirectory_iff, if_pos hhere, if_neg hblank, if_neg hup, if_pos hpurpose]
    rfl
  | case6 links here part rest hhere hblank hup hpurpose hlong =>
    rw [walkFrom, h.isDirectory_iff, if_pos hhere, if_neg hblank, if_neg hup, if_neg hpurpose,
      if_pos hlong]
    rfl
  | case7 links here part rest hhere hblank hup hpurpose hshort hnode hrest
  | case8 links here part rest hhere hblank hup hpurpose hshort hnode hrest =>
    rw [walkFrom, h.isDirectory_iff, if_pos hhere, if_neg hblank, if_neg hup, if_neg hpurpose,
      if_neg hshort, (h.node?_eq_none_iff _).2 hnode]
    simp only [hrest]
    rfl
  | case9 links here part rest hhere hblank hup hpurpose hshort target hnode hrest =>
    have hnode' := (h.node?_eq_link_iff _ _).2 hnode
    rw [walkFrom, h.isDirectory_iff, if_pos hhere, if_neg hblank, if_neg hup, if_neg hpurpose,
      if_neg hshort, hnode']
    simp only [hrest, if_true, Except.map, renewed, hnode', Option.getD_some]
  | case10 here part rest hhere hblank hup hpurpose hshort target hnode hrest =>
    rw [walkFrom, h.isDirectory_iff, if_pos hhere, if_neg hblank, if_neg hup, if_neg hpurpose,
      if_neg hshort, (h.node?_eq_link_iff _ _).2 hnode]
    simp only [hrest]
    rfl
  | case11 here part rest hhere hblank hup hpurpose hshort target hnode hrest links ih =>
    rw [walkFrom, h.isDirectory_iff, if_pos hhere, if_neg hblank, if_neg hup, if_neg hpurpose,
      if_neg hshort, (h.node?_eq_link_iff _ _).2 hnode]
    simp only [hrest, ih]
    rfl
  | case12 links here part rest hhere hblank hup hpurpose hshort node hlink hnode ih =>
    rw [walkFrom, h.isDirectory_iff, if_pos hhere, if_neg hblank, if_neg hup, if_neg hpurpose,
      if_neg hshort]
    split
    · next hnone =>
      rw [(h.node?_eq_none_iff _).1 hnone] at hnode
      cases hnode
    · next target htarget =>
      rw [(h.node?_eq_link_iff _ _).1 htarget] at hnode
      exact absurd rfl (hlink target ∘ (Option.some.inj hnode).symm.trans)
    · exact ih
  | case13 links here part rest hhere =>
    rw [walkFrom, h.isDirectory_iff, if_neg hhere]
    rfl

theorem walk_eq (h : SameButFiles tree tree') (purpose : Purpose) (directory : Location)
    (text : String) :
    tree'.walk purpose directory text = (tree.walk purpose directory text).map tree'.renewed := by
  have hmissing : (tree'.node? (walkStart directory text)).isNone =
      (tree.node? (walkStart directory text)).isNone := by
    rw [Bool.eq_iff_iff, Option.isNone_iff_eq_none, Option.isNone_iff_eq_none,
      h.node?_eq_none_iff]
  simp only [walk, hmissing]
  split
  · rfl
  · split
    · rfl
    · split
      · next hnone =>
        have hnone' := (h.node?_eq_none_iff _).2 (Option.isNone_iff_eq_none.1 hnone)
        unfold walkFromMissing
        dsimp only
        split
        · simp [Except.map, renewed, hnone']
        · rfl
      · exact h.walkFrom_eq purpose linkLimit _ _

theorem linkAt?_eq (h : SameButFiles tree tree') (directory : Location) (path : Path) :
    tree'.linkAt? directory path = tree.linkAt? directory path := by
  unfold linkAt?
  rw [h.walk_eq]
  cases hwalk : tree.walk .link directory path.text with
  | error refusal => rfl
  | ok found =>
    cases found with
    | vacant place => rfl
    | node place node =>
      simp only [Except.map, renewed]
      rcases walk_node hwalk with hnode | ⟨hnone, rfl⟩
      · rcases h place with hsame | ⟨file, file', hfile, hfile'⟩
        · rw [hsame, hnode, Option.getD_some]
        · rw [hfile] at hnode
          cases hnode
          rw [hfile', Option.getD_some]
      · rw [(h.node?_eq_none_iff place).2 hnone, Option.getD_none]

end SameButFiles

end FileTree

namespace Host

open FileTree

theorem stat_eq_ok_iff (host : Host) (text : String) (place : Location) (node : Node) :
    host.stat text = .ok (place, node) ↔
      hasNul text = false ∧ host.walk .target text = .ok (.node place node) := by
  unfold stat
  rw [← reach_iff_walk]
  cases host.reach .target text [text] with
  | error fault => simp
  | ok found => cases found <;> simp

/-- A file at the end of a path is there. -/
theorem node?_of_stat {host : Host} {text : String} {place : Location} {file : File}
    (h : host.stat text = .ok (place, .file file)) :
    host.tree.node? place = some (.file file) := by
  rcases walk_node ((stat_eq_ok_iff ..).1 h).2 with hnode | ⟨-, hdirectory⟩
  · exact hnode
  · cases hdirectory

/-- A path to a file leads to a file in the same place if only files hold something else. -/
theorem stat_file {host : Host} {tree : FileTree} (h : SameButFiles host.tree tree)
    {text : String} {place : Location} {file : File}
    (hstat : host.stat text = .ok (place, .file file)) :
    ∃ other, (host.withTree tree).stat text = .ok (place, .file other) := by
  obtain ⟨hnul, hwalk⟩ := (stat_eq_ok_iff ..).1 hstat
  have hway := h.walk_eq .target host.directory text
  rw [walk] at hwalk
  rw [hwalk] at hway
  obtain ⟨other, hother⟩ : ∃ other, tree.node? place = some (.file other) := by
    rcases h place with hsame | ⟨_, other, _, hother⟩
    · exact ⟨file, hsame.trans (node?_of_stat hstat)⟩
    · exact ⟨other, hother⟩
  refine ⟨other, (stat_eq_ok_iff ..).2 ⟨hnul, ?_⟩⟩
  simpa [walk, withTree, Except.map, renewed, hother] using hway

theorem stat_set_file {host : Host} {text : String} {place : Location} {file : File}
    (hstat : host.stat text = .ok (place, .file file)) (other : File) :
    (host.withTree (host.tree.set place (.file other))).stat text = .ok (place, .file other) := by
  have hnode := node?_of_stat hstat
  have hroot : place ≠ [] := ne_nil_of_node? (by rw [hnode]; rfl)
  obtain ⟨last, hlast⟩ := stat_file (SameButFiles.set_file hnode other) hstat
  have hthere := node?_of_stat hlast
  have hself : (host.withTree (host.tree.set place (.file other))).tree.node? place =
      some (.file other) := node?_set_self _ hroot
  rw [hself] at hthere
  cases hthere
  exact hlast

end Host

end MarkupTidy
