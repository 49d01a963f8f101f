import MarkupTidy.Proofs.Files.Replaced

/-!
Absolute paths. The walk along one begins at the root, wherever the host works, and the root is
always there. A name that stands in the root leads to what lies there, and so do names that lead
down from it through directories.
-/
namespace MarkupTidy

namespace Path

theorem toList_text_of_anchored {p : Path} (h : p.anchor ≠ .none) :
    ∃ rest, p.text.toList = '/' :: rest := by
  have hsome : ¬ (p.anchor = .none ∧ p.parts = []) := fun hnone => h hnone.1
  rw [text, if_neg hsome, String.toList_append]
  cases hanchor : p.anchor with
  | none => exact absurd hanchor h
  | root => exact ⟨_, rfl⟩
  | doubleRoot => exact ⟨_, rfl⟩

theorem isAbsolute_ofText_text {p : Path} (h : p.anchor ≠ .none) :
    (ofText p.text).isAbsolute = true := by
  obtain ⟨rest, htext⟩ := toList_text_of_anchored h
  have hlength : (p.text.toList.takeWhile isSlash).length =
      (rest.takeWhile isSlash).length + 1 := by
    rw [htext, List.takeWhile_cons_of_pos (by rfl), List.length_cons]
  have hanchor : anchorOf p.text ≠ .none := by
    unfold anchorOf
    rw [hlength]
    split
    · next hzero => cases hzero
    · exact Anchor.noConfusion
    · exact Anchor.noConfusion
  simpa [isAbsolute, ofText] using hanchor

end Path

namespace FileTree

theorem walkStart_text {p : Path} (h : p.anchor ≠ .none) (here : Location) :
    walkStart here p.text = [] := by
  rw [walkStart, if_pos (Path.isAbsolute_ofText_text h)]

/-- The walk along an absolute path begins at the root. -/
theorem walk_text {p : Path} (h : p.anchor ≠ .none) (tree : FileTree) (purpose : Purpose)
    (directory : Location) :
    tree.walk purpose directory p.text =
      if isPathTooLong p.text then .error .nameTooLong
      else tree.walkFrom purpose linkLimit [] (steps p.text) := by
  obtain ⟨rest, htext⟩ := Path.toList_text_of_anchored h
  have hempty : p.text.isEmpty = false := by
    rw [← Bool.not_eq_true, String.isEmpty_iff]
    intro hnil
    rw [hnil] at htext
    cases htext
  have hroot : (tree.node? []).isNone = false := rfl
  simp only [walk, hempty, walkStart_text h, hroot, Bool.false_eq_true, if_false]

theorem walk_root (tree : FileTree) (purpose : Purpose) (directory : Location) :
    tree.walk purpose directory (Path.ofParts []).text = .ok (.node [] .directory) := by
  have hlong : isPathTooLong (Path.ofParts []).text = false := by decide
  have hsteps : steps (Path.ofParts []).text = [] := by decide
  rw [walk_text (by exact Anchor.noConfusion), hlong, hsteps, walkFrom]
  rfl

end FileTree

/-! Names in the root. -/

/-- A name that a node can have. -/
def IsPlainName (name : String) : Prop :=
  name ≠ "" ∧ name ≠ "." ∧ name ≠ ".." ∧ '/' ∉ name.toList ∧ '\x00' ∉ name.toList ∧
    name.utf8ByteSize ≤ FileTree.nameLimit

instance (name : String) : Decidable (IsPlainName name) :=
  inferInstanceAs (Decidable (_ ∧ _))

namespace IsPlainName

variable {name : String}

theorem not_isNameTooLong (h : IsPlainName name) : ¬ FileTree.isNameTooLong name = true := by
  simp only [FileTree.isNameTooLong, decide_eq_true_eq, Nat.not_lt]
  exact h.2.2.2.2.2

theorem pieces_eq (h : IsPlainName name) :
    Text.pieces Path.isSlash name.toList = [name.toList] :=
  Text.pieces_of_notMem h.2.2.2.1

theorem text_eq (name : String) : (Path.ofParts [name]).text = "/" ++ name := by
  simp [Path.ofParts, Path.text, Anchor.text, String.intercalate_singleton]

theorem split_eq (h : IsPlainName name) : Path.split (Path.ofParts [name]).text = ["", name] := by
  have hslash : ("/" ++ name).toList = [] ++ '/' :: name.toList := by simp
  rw [text_eq, Path.split, hslash, Text.pieces_append rfl, h.pieces_eq]
  simp [Text.pieces]

theorem steps_eq (h : IsPlainName name) :
    FileTree.steps (Path.ofParts [name]).text = [name] := by
  simp [FileTree.steps, h.split_eq, h.1]

theorem hasNul_eq (h : IsPlainName name) : Host.hasNul (Path.ofParts [name]).text = false := by
  rw [← Bool.not_eq_true, Host.hasNul, List.contains_iff_mem, text_eq]
  simpa using h.2.2.2.2.1

theorem isPathTooLong_eq (h : IsPlainName name) :
    FileTree.isPathTooLong (Path.ofParts [name]).text = false := by
  have hshort : name.utf8ByteSize ≤ 255 := h.2.2.2.2.2
  have hsize : ("/" ++ name).utf8ByteSize = 1 + name.utf8ByteSize := by
    rw [String.utf8ByteSize_append]
    rfl
  rw [text_eq, FileTree.isPathTooLong, hsize, FileTree.pathLimit, decide_eq_false_iff_not]
  omega

/-- A name in the root leads to what lies there, if it is no link or a link is asked for. -/
theorem walk_eq (h : IsPlainName name) (host : Host) {purpose : Purpose}
    (hpurpose : purpose = .link ∨ ∀ target, host.tree.node? [name] ≠ some (.link target)) :
    host.walk purpose (Path.ofParts [name]).text = .ok (host.tree.foundAt [name]) := by
  rw [Host.walk, FileTree.walk_text (by exact Anchor.noConfusion), h.isPathTooLong_eq, h.steps_eq]
  exact FileTree.walkFrom_last FileTree.linkLimit rfl (not_or.2 ⟨h.1, h.2.1⟩) h.2.2.1
    h.not_isNameTooLong hpurpose

theorem stat_eq (h : IsPlainName name) {host : Host} {node : Node}
    (hnode : host.tree.node? [name] = some node) (hlink : ∀ target, node ≠ .link target) :
    host.stat (Path.ofParts [name]).text = .ok ([name], node) := by
  have hother : ∀ target, host.tree.node? [name] ≠ some (.link target) := by
    rw [hnode]
    exact fun target heq => hlink target (Option.some.inj heq)
  rw [Host.stat, Host.reach, h.hasNul_eq, h.walk_eq host (Or.inr hother),
    FileTree.foundAt_of_some hnode]
  rfl

theorem look_eq_none (h : IsPlainName name) {host : Host} (hnode : host.tree.node? [name] = none) :
    host.look (Path.ofParts [name]) = .ok none := by
  have hother : ∀ target, host.tree.node? [name] ≠ some (.link target) := by simp [hnode]
  have hfound : host.tree.foundAt [name] = .vacant [name] := by rw [FileTree.foundAt, hnode]
  rw [Host.look, Host.stat, Host.reach, h.hasNul_eq, h.walk_eq host (Or.inr hother), hfound]
  rfl

theorem linkAt?_eq_some (h : IsPlainName name) (host : Host) {target : String}
    (hnode : host.tree.node? [name] = some (.link target)) :
    host.tree.linkAt? host.directory (Path.ofParts [name]) = some target := by
  have hwalk := h.walk_eq host (Or.inl rfl)
  rw [Host.walk, FileTree.foundAt_of_some hnode] at hwalk
  rw [FileTree.linkAt?, hwalk]

theorem linkAt?_eq_none (h : IsPlainName name) {host : Host}
    (hother : ∀ target, host.tree.node? [name] ≠ some (.link target)) :
    host.tree.linkAt? host.directory (Path.ofParts [name]) = none := by
  have hwalk := h.walk_eq host (Or.inl rfl)
  rw [Host.walk] at hwalk
  rw [FileTree.linkAt?, hwalk, FileTree.foundAt]
  cases hnode : host.tree.node? [name] with
  | none => rfl
  | some node =>
    cases node with
    | link target => exact absurd hnode (hother target)
    | directory | file file => rfl

theorem complete (h : IsPlainName name) {host : Host}
    (hother : ∀ target, host.tree.node? [name] ≠ some (.link target)) :
    host.tree.resolve host.directory (Path.ofParts [name]).text =
      .complete (Path.ofParts [name]) := by
  have hlink := h.linkAt?_eq_none hother
  have hbegin : FileTree.startOf ⟨.none, []⟩ (Path.ofParts [name]).text = ⟨.root, []⟩ := by
    rw [FileTree.startOf, if_pos (Path.isAbsolute_ofText_text Anchor.noConfusion)]
  have hchild : Path.child ⟨.root, []⟩ name = Path.ofParts [name] := rfl
  simp [FileTree.resolve, hbegin, h.split_eq, FileTree.resolveFrom, h.1, h.2.1, h.2.2.1, hchild,
    hlink]

/-- A name in the root is its own resolved path, if it is no link. -/
theorem resolve_eq (h : IsPlainName name) {host : Host}
    (hother : ∀ target, host.tree.node? [name] ≠ some (.link target)) :
    host.resolve (Path.ofParts [name]) = .ok (Path.ofParts [name]) := by
  have habsolute : host.absolute (Path.ofParts [name]) = .ok (Path.ofParts [name]) := by
    simp [Host.absolute, Path.isAbsolute, Path.ofParts, FileTree.descend, h.2.1, h.2.2.1]
  simp only [Host.resolve, h.hasNul_eq, h.complete hother, Host.absoluteOf, habsolute, bind,
    Except.bind, h.walk_eq host (Or.inr hother), Bool.false_eq_true, if_false]

end IsPlainName

/-! Names below directories. -/

namespace FileTree

variable {tree : FileTree} {here : Location} {purpose : Purpose}

/-- A walk goes on below a directory that lies where it stands. -/
theorem walkFrom_down {name : String} {rest : List String} (hname : IsPlainName name) (hrest : rest ≠ [""])
    (hhere : (tree.node? here).any Node.isDirectory = true)
    (hbelow : (tree.node? (here ++ [name])).any Node.isDirectory = true) (links : Nat) :
    tree.walkFrom purpose links here (name :: rest) =
      tree.walkFrom purpose links (here ++ [name]) rest := by
  rw [walkFrom, if_pos hhere, if_neg (not_or.2 ⟨hname.1, hname.2.1⟩), if_neg hname.2.2.1,
    if_neg fun hfile => hrest hfile.2, if_neg hname.not_isNameTooLong]
  cases hsome : tree.node? (here ++ [name]) with
  | none => simp [hsome] at hbelow
  | some node =>
    rw [hsome] at hbelow
    cases node with
    | directory => rfl
    | file file | link target => cases hbelow

/-- A walk down through directories leads to what lies under the last name. -/
theorem walkFrom_names {names : List String} (hnames : ∀ name ∈ names, IsPlainName name)
    (hsome : names ≠ [])
    (hdirectories : ∀ n < names.length,
      (tree.node? (here ++ names.take n)).any Node.isDirectory = true)
    (hother : ∀ target, tree.node? (here ++ names) ≠ some (.link target)) (links : Nat) :
    tree.walkFrom purpose links here names = .ok (tree.foundAt (here ++ names)) := by
  induction names generalizing here with
  | nil => exact absurd rfl hsome
  | cons first others ih =>
    obtain ⟨hfirst, hothers⟩ := List.forall_mem_cons.1 hnames
    have hhere : (tree.node? here).any Node.isDirectory = true := by
      simpa using hdirectories 0 (Nat.succ_pos _)
    by_cases hlast : others = []
    · subst hlast
      exact walkFrom_last links hhere (not_or.2 ⟨hfirst.1, hfirst.2.1⟩) hfirst.2.2.1
        hfirst.not_isNameTooLong (Or.inr hother)
    · have hbelow : ∀ n < others.length,
          (tree.node? (here ++ [first] ++ others.take n)).any Node.isDirectory = true := by
        intro n hn
        simpa using hdirectories (n + 1) (Nat.succ_lt_succ hn)
      have hnext : (tree.node? (here ++ [first])).any Node.isDirectory = true := by
        simpa using hbelow 0 (List.length_pos_iff.2 hlast)
      have hrest : others ≠ [""] := by
        rintro rfl
        exact (hothers "" (List.mem_singleton_self "")).1 rfl
      rw [List.append_cons] at hother ⊢
      exact (walkFrom_down hfirst hrest hhere hnext links).trans
        (ih hothers hlast hbelow hother)

end FileTree

/-- The root is its own resolved path. -/
theorem Host.resolve_root (host : Host) : host.resolve (.ofParts []) = .ok (.ofParts []) := by
  have htext : (Path.ofParts []).text = "/" := by decide
  have hnul : Host.hasNul "/" = false := by decide
  have hpieces : Path.split "/" = ["", ""] := by decide
  have hbegin : FileTree.startOf ⟨.none, []⟩ "/" = .ofParts [] := by decide
  have hcomplete : host.tree.resolve host.directory "/" = .complete (.ofParts []) := by
    simp [FileTree.resolve, hbegin, hpieces, FileTree.resolveFrom]
  have hwalk : host.walk .target "/" = .ok (.node [] .directory) :=
    htext ▸ host.tree.walk_root .target host.directory
  have habsolute : host.absolute (.ofParts []) = .ok (.ofParts []) := by
    simp [Host.absolute, Path.isAbsolute, Path.ofParts, FileTree.descend]
  simp only [Host.resolve, htext, hnul, hcomplete, Host.absoluteOf, habsolute, hwalk, bind,
    Except.bind, Bool.false_eq_true, if_false]

end MarkupTidy
