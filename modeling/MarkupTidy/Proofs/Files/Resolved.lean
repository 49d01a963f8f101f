import MarkupTidy.Proofs.Files.AbsolutePaths

/-!
Resolved paths. They are absolute. Following an absolute path goes by paths that name no link, nor
do those above them, so the end of it names none either; only where a link leads back to itself is
the rest left as it was written, and may name one.
-/
namespace MarkupTidy

namespace FileTree

variable {tree : FileTree} {directory : Location}

/-- A path by names from the root that is no link, and lies below none. -/
structure IsLinkFree (tree : FileTree) (directory : Location) (path : Path) : Prop where
  rooted : path.anchor = .root
  named : ∀ part ∈ path.parts, part ≠ "." ∧ part ≠ ".."
  free : ∀ parts, parts <+: path.parts → tree.linkAt? directory ⟨.root, parts⟩ = none

namespace IsLinkFree

theorem linkAt?_eq {path : Path} (h : tree.IsLinkFree directory path) :
    tree.linkAt? directory path = none := by
  obtain ⟨anchor, parts⟩ := path
  obtain rfl : anchor = .root := h.rooted
  exact h.free parts (List.prefix_refl parts)

theorem root : tree.IsLinkFree directory ⟨.root, []⟩ where
  rooted := rfl
  named := by simp
  free parts hparts := by
    obtain rfl := List.prefix_nil.1 hparts
    have hwalk : tree.walk .link directory (Path.text ⟨.root, []⟩) = .ok (.node [] .directory) :=
      walk_root tree .link directory
    rw [linkAt?, hwalk]

theorem above {here : Path} (h : tree.IsLinkFree directory here) :
    tree.IsLinkFree directory here.above := by
  have habove : here.above = here.parent := by simp [Path.above, Path.isAbsolute, h.rooted]
  rw [habove]
  have hinit : here.parent.parts <+: here.parts := List.dropLast_prefix here.parts
  exact ⟨h.rooted, fun part hpart => h.named part (hinit.subset hpart),
    fun parts hparts => h.free parts (hparts.trans hinit)⟩

theorem child {here : Path} {name : String} (h : tree.IsLinkFree directory here)
    (hname : name ≠ "." ∧ name ≠ "..")
    (hlink : tree.linkAt? directory (here.child name) = none) :
    tree.IsLinkFree directory (here.child name) where
  rooted := h.rooted
  named part hpart := by
    rcases List.mem_append.1 hpart with hbefore | hlast
    · exact h.named part hbefore
    · obtain rfl := List.mem_singleton.1 hlast
      exact hname
  free parts hparts := by
    rcases List.prefix_concat_iff.1 hparts with rfl | hbefore
    · have hchild : here.child name = ⟨.root, here.parts ++ [name]⟩ := by
        rw [Path.child, h.rooted]
      rwa [← hchild]
    · exact h.free parts hbefore

theorem startOf {here : Path} (h : tree.IsLinkFree directory here) (text : String) :
    tree.IsLinkFree directory (startOf here text) := by
  unfold FileTree.startOf
  split
  · exact root
  · exact h

/-- Following pieces from such a path to the end leads to such a path. -/
theorem of_complete {fuel : Nat} {opened : List Path} {here place : Path} {pieces : List String}
    (h : tree.IsLinkFree directory here)
    (hend : tree.resolveFrom directory fuel opened here pieces = .complete place) :
    tree.IsLinkFree directory place := by
  -- A link is followed in a walk of its own, which begins where its target does.
  fun_induction FileTree.resolveFrom tree directory fuel opened here pieces generalizing place
  case case1 =>
    cases hend
    exact h
  case case2 ih => exact ih h hend
  case case3 ih => exact ih h.above hend
  case case4 | case6 | case7 => cases hend
  case case5 hcomplete ih ihrest => exact ihrest (ih (h.startOf _) hcomplete) hend
  case case8 hnamed hdown _ _ hlink ih =>
    exact ih (h.child ⟨fun hdot => hnamed (Or.inr hdot), hdown⟩ hlink) hend

end IsLinkFree

/-- Names lead down, one after the other. -/
theorem descend_names {parts : List String} (h : ∀ part ∈ parts, part ≠ "." ∧ part ≠ "..")
    (here : Location) : descend here parts = here ++ parts := by
  induction parts generalizing here with
  | nil => simp [descend]
  | cons part rest ih =>
    obtain ⟨hpart, hrest⟩ := List.forall_mem_cons.1 h
    have hstep : descend here (part :: rest) = descend (here ++ [part]) rest := by
      simp [descend, hpart.1, hpart.2]
    rw [hstep, ih hrest, List.append_assoc, List.singleton_append]

end FileTree

namespace Host

variable {host : Host}

theorem anchor_absolute {path full : Path} (h : host.absolute path = .ok full) :
    full.anchor ≠ .none := by
  unfold absolute at h
  split at h
  · next hpath =>
    cases h
    simpa [Path.isAbsolute] using hpath
  · unfold workingPath at h
    split at h
    · cases h
      exact Anchor.noConfusion
    · cases h

theorem resolve_eq_ok {path resolved : Path} (h : host.resolve path = .ok resolved) :
    host.absoluteOf (host.tree.resolve host.directory path.text) = .ok resolved := by
  simp only [resolve, bind, Except.bind] at h
  split at h
  · cases h
  · cases habsolute : host.absoluteOf (host.tree.resolve host.directory path.text) with
    | error fault =>
      rw [habsolute] at h
      cases h
    | ok absolute =>
      rw [habsolute] at h
      dsimp only at h
      split at h
      · cases h
      · exact h

theorem anchor_resolve {path resolved : Path} (h : host.resolve path = .ok resolved) :
    resolved.anchor ≠ .none := by
  have habsolute := resolve_eq_ok h
  unfold absoluteOf at habsolute
  split at habsolute <;> exact anchor_absolute habsolute

/-- An absolute path that can be followed to the end is resolved to a path that names no link. -/
theorem linkAt?_resolve {path place resolved : Path} (hanchor : path.anchor ≠ .none)
    (hplace : host.tree.resolve host.directory path.text = .complete place)
    (h : host.resolve path = .ok resolved) :
    host.tree.linkAt? host.directory resolved = none := by
  have hfree : host.tree.IsLinkFree host.directory place := by
    have hbegin : FileTree.startOf ⟨.none, []⟩ path.text = ⟨.root, []⟩ :=
      if_pos (Path.isAbsolute_ofText_text hanchor)
    rw [FileTree.resolve, hbegin] at hplace
    exact FileTree.IsLinkFree.root.of_complete hplace
  have habsolute : host.absolute place = .ok place := by
    have hrooted : place.isAbsolute = true := by simp [Path.isAbsolute, hfree.rooted]
    rw [absolute, if_pos hrooted, FileTree.descend_names hfree.named, List.nil_append]
  have hresolved := resolve_eq_ok h
  rw [hplace, absoluteOf, habsolute] at hresolved
  cases hresolved
  exact hfree.linkAt?_eq

end Host

end MarkupTidy
