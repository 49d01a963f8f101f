import MarkupTidy.Proofs.Files.AbsolutePaths
import MarkupTidy.Proofs.Files.Overwritten

/-!
Names in the root, and links there. A link to the root itself takes a walk nowhere, but uses up one
of the links that it may follow; a link that leads back to itself leaves what stands behind it to be
resolved by its text. On a host that refuses no step of it, a replacement puts a file in the place
of a name, even if the name is that of a link.
-/
namespace MarkupTidy

namespace FileTree

/-- Links to where a walk is take it nowhere, but may be followed only so many times. -/
theorem walkFrom_through {tree : FileTree} {name : String} (h : IsPlainName name)
    (hlink : tree.node? [name] = some (.link ".")) (count links : Nat) (rest : List String) :
    tree.walkFrom .target (count + links) [] (List.replicate count name ++ rest) =
      tree.walkFrom .target links [] rest := by
  have hsteps : steps "." = ["."] := by decide
  have hstart : walkStart [] "." = [] := by decide
  have hshort : isNameTooLong name = false := Bool.eq_false_iff.2 h.not_isNameTooLong
  have hroot : ((tree.node? []).any Node.isDirectory) = true := rfl
  induction count with
  | zero => rw [Nat.zero_add, List.replicate_zero, List.nil_append]
  | succ count ih =>
    have hstay : tree.walkFrom .target (count + links) []
        ("." :: (List.replicate count name ++ rest)) = tree.walkFrom .target links [] rest := by
      rw [walkFrom]
      simp [hroot, ih]
    rw [List.replicate_succ, List.cons_append, Nat.succ_add, walkFrom]
    simp [hroot, h.1, h.2.1, h.2.2.1, hshort, hlink, hsteps, hstart, hstay]

end FileTree

namespace Host

/-- Behind a link that leads back to itself a name is resolved by its text alone. -/
theorem resolve_behind_loop {host : Host} (hdirectory : host.directory = [])
    (hloop : host.tree.node? ["loop"] = some (.link "loop"))
    {found : Found} (hwalk : host.walk .target (Path.ofParts ["x"]).text = .ok found) :
    host.resolve ⟨.root, ["loop", "..", "x"]⟩ = .ok (.ofParts ["x"]) := by
  have hnul : Host.hasNul "/loop/../x" = false := by decide
  have htext : Path.text ⟨.root, ["loop", "..", "x"]⟩ = "/loop/../x" := by decide
  have hpieces : Path.split "/loop/../x" = ["", "loop", "..", "x"] := by decide
  have hbegin : FileTree.startOf ⟨.none, []⟩ "/loop/../x" = ⟨.root, []⟩ := by decide
  have hplain : IsPlainName "loop" := by decide
  have hlink := hplain.linkAt?_eq_some host hloop
  rw [hdirectory] at hlink
  have hlink : host.tree.linkAt? [] ⟨.root, ["loop"]⟩ = some "loop" := hlink
  have hagain : FileTree.startOf ⟨.root, []⟩ "loop" = ⟨.root, []⟩ := by decide
  have hsplit : Path.split "loop" = ["loop"] := by decide
  have hstray : host.tree.resolve [] "/loop/../x" = .looping "/loop/../x" := by
    have hfirst : Resolution.looped (Path.text ⟨.root, ["loop"]⟩) [] = .looping "/loop/" := by
      decide +kernel
    have hrest : Resolution.looped "/loop/" ["..", "x"] = .looping "/loop/../x" := by
      decide +kernel
    cases hfuel : host.tree.linkCount * FileTree.pathLimit <;>
    simp [FileTree.resolve, hbegin, hpieces, FileTree.resolveFrom, Path.child, hlink, hagain,
      hsplit, hfuel, hfirst, hrest]
  have habsolute : host.absolute (Path.ofText "/loop/../x") = .ok (.ofParts ["x"]) := by rfl
  simp only [Host.resolve, htext, hnul, hdirectory, hstray, Host.absoluteOf, habsolute, bind,
    Except.bind, hwalk, Bool.false_eq_true, if_false]

/-- The host refuses no step of replacing a file, and a file can be made for a while beside this
one in the root. -/
structure MayReplace (host : Host) (path : Path) : Prop where
  refuses : ∀ step, host.refuses step = none
  plain : IsPlainName (host.freshName [] path.suffix)
  free : host.tree.node? [host.freshName [] path.suffix] = none

end Host

namespace IsPlainName

open Host

variable {name : String} {host : Host}

theorem reach_vacant (h : IsPlainName name) (hfree : host.tree.node? [name] = none) :
    host.reach .link (Path.ofParts [name]).text [(Path.ofParts [name]).text] =
      .ok (.vacant [name]) := by
  rw [reach, h.hasNul_eq, h.walk_eq host (Or.inl rfl), FileTree.foundAt, hfree]
  rfl

end IsPlainName

namespace Host

variable {host : Host} {path : Path} {place : Location} {node : Node}

/-- A new file takes the place that a path leads to, by way of a temporary file in the root. -/
theorem replaceBeside_of_reach (hmay : host.MayReplace path) {octets : Text.Utf8.Octets}
    (hparent : host.absolute path.parent = .ok (.ofParts []))
    (hnamed : path.parts ≠ [] ∧ path.name ≠ "..") (hdirectory : node ≠ .directory)
    (hreach : ∀ paths, (host.withTree (host.tree.set [host.freshName [] path.suffix]
      (.file ⟨octets, privateMode, none⟩))).reach .link path.text paths = .ok (.node place node)) :
    host.replaceBeside path octets =
      (.ok ⟨⟩, host.withTree (host.tree.set place (.file ⟨octets, privateMode, none⟩))) := by
  have htext : host.temporaryPath path (.ofParts []) =
      .ofParts [host.freshName [] path.suffix] := rfl
  have hvacant := hmay.plain.reach_vacant hmay.free
  rw [← htext] at hvacant
  have hnode : (host.tree.set [host.freshName [] path.suffix]
      (.file ⟨octets, privateMode, none⟩)).node? place = some node :=
    (FileTree.walk_node (reach_iff_walk.1 (hreach [])).2).resolve_right
      fun hgone => hdirectory hgone.2
  refine replaceBeside_of_ways hmay.refuses hparent hvacant hnamed ?_ fun paths => ?_
  · rw [hnode]
    cases node with
    | directory => exact absurd rfl hdirectory
    | file other | link target => rfl
  · rw [FileTree.foundAt_of_some hnode]
    exact hreach paths

end Host

namespace IsPlainName

open Host

variable {name : String} {host : Host}

theorem replaceBeside_eq (h : IsPlainName name) {node : Node}
    (hnode : host.tree.node? [name] = some node) (hdirectory : node ≠ .directory)
    (hmay : host.MayReplace (.ofParts [name])) (octets : Text.Utf8.Octets) :
    host.replaceBeside (.ofParts [name]) octets =
      (.ok ⟨⟩, host.withTree (host.tree.set [name] (.file ⟨octets, privateMode, none⟩))) := by
  have hnamed : (Path.ofParts [name]).parts ≠ [] ∧ (Path.ofParts [name]).name ≠ ".." :=
    ⟨List.cons_ne_nil _ _, h.2.2.1⟩
  refine replaceBeside_of_reach hmay rfl hnamed hdirectory fun paths => ?_
  have hother : [name] ≠ [host.freshName [] (Path.ofParts [name]).suffix] := by
    intro hsame
    rw [hsame, hmay.free] at hnode
    cases hnode
  generalize hfilled : host.withTree (host.tree.set
    [host.freshName [] (Path.ofParts [name]).suffix] (.file ⟨octets, privateMode, none⟩)) = filled
  have hthere : filled.tree.node? [name] = some node := by
    rw [← hfilled, ← hnode]
    exact FileTree.node?_set_ne _ hother
  have hwalk := h.walk_eq filled (Or.inl rfl)
  rw [FileTree.foundAt_of_some hthere] at hwalk
  exact reach_iff_walk.2 ⟨h.hasNul_eq, hwalk⟩

/-- A file takes the place of a name, with the permission bits of what the name has led to. -/
theorem overwriteFile_eq (h : IsPlainName name) {node : Node}
    (hnode : host.tree.node? [name] = some node) {place : Location} {file : File}
    (hstat : host.stat (Path.ofParts [name]).text = .ok (place, .file file))
    (hmay : host.MayReplace (.ofParts [name])) (octets : Text.Utf8.Octets) :
    host.overwriteFile (.ofParts [name]) octets =
      (.ok ⟨⟩, host.withTree (host.tree.set [name] (.file ⟨octets, file.mode, none⟩))) := by
  have hdirectory : node ≠ .directory := by
    rintro rfl
    rw [h.stat_eq hnode nofun] at hstat
    cases hstat
  have hparents := makeDirectories_parent (by exact Anchor.noConfusion) hstat
  have hself : (host.tree.set [name] (.file ⟨octets, privateMode, none⟩)).node? [name] =
      some (.file ⟨octets, privateMode, none⟩) := FileTree.node?_set_self _ (List.cons_ne_nil _ _)
  have hafter : (host.withTree (host.tree.set [name] (.file ⟨octets, privateMode, none⟩))).stat
      (Path.ofParts [name]).text = .ok ([name], .file ⟨octets, privateMode, none⟩) :=
    h.stat_eq hself nofun
  simp only [overwriteFile, hstat, replaceFile, hmay.refuses, hparents,
    h.replaceBeside_eq hnode hdirectory hmay, setMode_set hafter]

end IsPlainName

end MarkupTidy
