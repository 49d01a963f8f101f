import MarkupTidy.Executable
import MarkupTidy.Proofs.Files.SameButFiles

/-!
Hosts that differ in what files at certain places hold. A path leads the same way on both, so the
same things exist, can be run and are resolved to the same paths; and a path that does not lead to
such a place is read alike.
-/
namespace MarkupTidy

namespace FileTree

variable {tree tree' : FileTree}

/-- Another file in the place of one makes no difference to the number of links. -/
theorem linkCount_set_file {place : Location} {file : File}
    (hnode : tree.node? place = some (.file file)) (other : File) :
    (tree.set place (.file other)).linkCount = tree.linkCount := by
  have hroot : place ≠ [] := ne_nil_of_node? (by rw [hnode]; rfl)
  have hlookup : tree.entries.lookup place = some (.file file) := by
    simpa [node?, hroot] using hnode
  unfold linkCount set
  dsimp only
  rw [← List.countP_eq_length_filter, ← List.countP_eq_length_filter]
  revert hlookup
  induction tree.entries with
  | nil =>
    intro hlookup
    cases hlookup
  | cons entry rest ih =>
    intro hlookup
    obtain ⟨key, node⟩ := entry
    rw [Pairs.set]
    by_cases hkey : key = place
    · subst hkey
      obtain rfl : node = .file file := by simpa using hlookup
      rw [if_pos (beq_self_eq_true key)]
      simp only [List.countP_cons]
    · have hother : (place == key) = false := beq_eq_false_iff_ne.2 (Ne.symm hkey)
      rw [List.lookup_cons, hother] at hlookup
      rw [if_neg (by simpa using hkey), List.countP_cons, List.countP_cons, ih hlookup]

/-- Paths are followed alike where they meet the same links. -/
theorem resolveFrom_congr {directory : Location}
    (h : ∀ path, tree'.linkAt? directory path = tree.linkAt? directory path) (fuel : Nat)
    (opened : List Path) (here : Path) (left : List String) :
    tree'.resolveFrom directory fuel opened here left =
      tree.resolveFrom directory fuel opened here left := by
  fun_induction FileTree.resolveFrom tree directory fuel opened here left
  case case1 => rw [resolveFrom]
  case case2 hblank ih => rw [resolveFrom, if_pos hblank, ih]
  case case3 hblank ih => rw [resolveFrom, if_neg hblank, if_pos rfl, ih]
  case case4 opened here piece rest hblank hup next target fuel hlink hopened =>
    have hlink' : tree'.linkAt? directory (here.child piece) = some target := (h _).trans hlink
    have hagain : opened.contains (here.child piece) = true := hopened
    rw [resolveFrom, if_neg hblank, if_neg hup]
    simp only [hlink', hagain, if_true]
    rfl
  case case5 opened here piece rest hblank hup next target fuel hlink hopened place hplace ih
      ihrest =>
    have hlink' : tree'.linkAt? directory (here.child piece) = some target := (h _).trans hlink
    have hnew : ¬ opened.contains (here.child piece) = true := hopened
    have hinner : tree'.resolveFrom directory fuel (here.child piece :: opened)
        (startOf here target) (Path.split target) = .complete place := ih.trans hplace
    rw [resolveFrom, if_neg hblank, if_neg hup]
    simp only [hlink', if_neg hnew, hinner, ihrest]
  case case6 opened here piece rest hblank hup next target fuel hlink hopened text htext ih =>
    have hlink' : tree'.linkAt? directory (here.child piece) = some target := (h _).trans hlink
    have hnew : ¬ opened.contains (here.child piece) = true := hopened
    have hinner : tree'.resolveFrom directory fuel (here.child piece :: opened)
        (startOf here target) (Path.split target) = .looping text := ih.trans htext
    rw [resolveFrom, if_neg hblank, if_neg hup]
    simp only [hlink', if_neg hnew, hinner]
  case case7 opened here piece rest hblank hup next target hlink =>
    have hlink' : tree'.linkAt? directory (here.child piece) = some target := (h _).trans hlink
    rw [resolveFrom, if_neg hblank, if_neg hup]
    simp only [hlink']
    rfl
  case case8 opened here piece rest hblank hup fuel next hlink ih =>
    have hlink' : tree'.linkAt? directory (here.child piece) = none := (h _).trans hlink
    rw [resolveFrom, if_neg hblank, if_neg hup]
    simp only [hlink']
    exact ih

end FileTree

/-- The path leads to the place, where something lies. -/
def Host.LeadsTo (host : Host) (path : Path) (place : Location) : Prop :=
  ∃ node, host.stat path.text = .ok (place, node)

/-- The hosts differ at most in what the files at these places hold. The files have their permission
bits, and one that was given other octets is no program. -/
structure DiffersAt (changed : Location → Prop) (host host' : Host) : Prop where
  tree : host' = host.withTree host'.tree
  links : host'.tree.linkCount = host.tree.linkCount
  places : ∀ place, host'.tree.node? place = host.tree.node? place ∨
    changed place ∧ ∃ file octets, host.tree.node? place = some (.file file) ∧
      host'.tree.node? place = some (.file ⟨octets, file.mode, none⟩)

namespace DiffersAt

open FileTree

variable {changed : Location → Prop} {host host' : Host}

theorem refl (changed : Location → Prop) (host : Host) : DiffersAt changed host host :=
  ⟨rfl, rfl, fun _ => Or.inl rfl⟩

theorem mono (h : DiffersAt changed host host') {more : Location → Prop}
    (hmore : ∀ place, changed place → more place) : DiffersAt more host host' :=
  ⟨h.tree, h.links, fun place => (h.places place).imp_right (And.imp_left (hmore place))⟩

theorem directory_eq (h : DiffersAt changed host host') : host'.directory = host.directory := by
  rw [h.tree]
  rfl

theorem searchPath_eq (h : DiffersAt changed host host') :
    host'.searchPath = host.searchPath := by
  rw [h.tree]
  rfl

theorem startRoom_eq (h : DiffersAt changed host host') : host'.startRoom = host.startRoom := by
  rw [h.tree]
  rfl

theorem sameButFiles (h : DiffersAt changed host host') :
    SameButFiles host.tree host'.tree := by
  intro place
  rcases h.places place with hsame | ⟨-, file, octets, hnode, hnode'⟩
  · exact Or.inl hsame
  · exact Or.inr ⟨file, _, hnode, hnode'⟩

/-- Hosts that differ one after the other differ in all. -/
theorem trans {host'' : Host} (h : DiffersAt changed host host')
    (h' : DiffersAt changed host' host'') : DiffersAt changed host host'' := by
  refine ⟨?_, h'.links.trans h.links, ?_⟩
  · rw [h'.tree, h.tree]
    rfl
  · intro place
    rcases h'.places place with hsame' | ⟨hplace, file', octets', hnode', hnode''⟩
    · rw [hsame']
      exact h.places place
    · right
      refine ⟨hplace, ?_⟩
      rcases h.places place with hsame | ⟨-, file, octets, hnode, hgiven⟩
      · exact ⟨file', octets', hsame.symm.trans hnode', hnode''⟩
      · rw [hgiven] at hnode'
        cases hnode'
        exact ⟨file, octets', hnode, hnode''⟩

/-- A file at one of the places may be given other octets. -/
theorem set {place : Location} {file : File} (hnode : host.tree.node? place = some (.file file))
    (hplace : changed place) (octets : Text.Utf8.Octets) :
    DiffersAt changed host
      (host.withTree (host.tree.set place (.file ⟨octets, file.mode, none⟩))) := by
  have hroot : place ≠ [] := ne_nil_of_node? (by rw [hnode]; rfl)
  refine ⟨rfl, linkCount_set_file hnode _, ?_⟩
  intro other
  by_cases hother : other = place
  · subst hother
    exact Or.inr ⟨hplace, file, octets, hnode, node?_set_self _ hroot⟩
  · exact Or.inl (node?_set_ne _ hother)

/-! Looking at a path. -/

theorem walk_eq (h : DiffersAt changed host host') (purpose : Purpose) (text : String) :
    host'.walk purpose text = (host.walk purpose text).map host'.tree.renewed := by
  have hdirectory := h.directory_eq
  rw [Host.walk, hdirectory]
  exact h.sameButFiles.walk_eq purpose host.directory text

theorem stat_error (h : DiffersAt changed host host') {text : String} {fault : Fault}
    (hstat : host.stat text = .error fault) : host'.stat text = .error fault := by
  unfold Host.stat Host.reach at hstat ⊢
  rw [h.walk_eq]
  cases hnul : Host.hasNul text with
  | true =>
    rw [hnul] at hstat
    exact hstat
  | false =>
    rw [hnul] at hstat
    cases hwalk : host.walk .target text with
    | error refusal =>
      rw [hwalk] at hstat
      exact hstat
    | ok found =>
      rw [hwalk] at hstat
      cases found with
      | vacant place => exact hstat
      | node place node => cases hstat

/-- A path leads to the same node, or to a file with other octets. -/
theorem walk_cases (h : DiffersAt changed host host') {purpose : Purpose} {text : String}
    {place : Location} {node : Node} (hwalk : host.walk purpose text = .ok (.node place node)) :
    host'.walk purpose text = .ok (.node place node) ∨
    changed place ∧ ∃ file octets, node = .file file ∧
      host'.walk purpose text = .ok (.node place (.file ⟨octets, file.mode, none⟩)) := by
  have hway := h.walk_eq purpose text
  rw [hwalk] at hway
  rw [hway]
  simp only [Except.map, renewed]
  rcases walk_node hwalk with hnode | ⟨hnone, rfl⟩
  · rcases h.places place with hsame | ⟨hchanged, file, octets, hfile, hfile'⟩
    · left
      rw [hsame, hnode]
      rfl
    · rw [hnode] at hfile
      cases hfile
      right
      refine ⟨hchanged, file, octets, rfl, ?_⟩
      rw [hfile']
      rfl
  · left
    rw [(h.sameButFiles.node?_eq_none_iff place).2 hnone]
    rfl

theorem stat_cases (h : DiffersAt changed host host') {text : String} {place : Location}
    {node : Node} (hstat : host.stat text = .ok (place, node)) :
    host'.stat text = .ok (place, node) ∨
    changed place ∧ ∃ file octets, node = .file file ∧
      host'.stat text = .ok (place, .file ⟨octets, file.mode, none⟩) := by
  obtain ⟨hnul, hwalk⟩ := (Host.stat_eq_ok_iff ..).1 hstat
  rcases h.walk_cases hwalk with hsame | ⟨hchanged, file, octets, hnode, hfile⟩
  · exact Or.inl ((Host.stat_eq_ok_iff ..).2 ⟨hnul, hsame⟩)
  · exact Or.inr ⟨hchanged, file, octets, hnode, (Host.stat_eq_ok_iff ..).2 ⟨hnul, hfile⟩⟩

theorem stat_kept (h : DiffersAt changed host host') {text : String} {place : Location}
    {node : Node} (hstat : host.stat text = .ok (place, node)) (hkept : ¬ changed place) :
    host'.stat text = .ok (place, node) :=
  (h.stat_cases hstat).resolve_right fun hchanged => hkept hchanged.1

theorem leadsTo_iff (h : DiffersAt changed host host') (path : Path) (place : Location) :
    host'.LeadsTo path place ↔ host.LeadsTo path place := by
  unfold Host.LeadsTo
  cases hstat : host.stat path.text with
  | error fault => rw [h.stat_error hstat]
  | ok found =>
    obtain ⟨there, node⟩ := found
    rcases h.stat_cases hstat with hsame | ⟨-, file, octets, -, hfile⟩
    · rw [hsame]
    · rw [hfile]
      simp

theorem exists?_eq (h : DiffersAt changed host host') (path : Path) :
    host'.exists? path = host.exists? path := by
  unfold Host.exists? Host.look
  cases hstat : host.stat path.text with
  | error fault => rw [h.stat_error hstat]
  | ok found =>
    rcases h.stat_cases hstat with hsame | ⟨-, file, octets, -, hfile⟩
    · rw [hsame]
    · rw [hfile]
      rfl

theorem isFile?_eq (h : DiffersAt changed host host') (path : Path) :
    host'.isFile? path = host.isFile? path := by
  unfold Host.isFile? Host.look
  cases hstat : host.stat path.text with
  | error fault => rw [h.stat_error hstat]
  | ok found =>
    rcases h.stat_cases hstat with hsame | ⟨-, file, octets, hnode, hfile⟩
    · rw [hsame]
    · obtain ⟨place, node⟩ := found
      obtain rfl : node = .file file := hnode
      rw [hfile]
      rfl

/-- What may be run is told by the permission bits. -/
theorem isExecutable_eq (h : DiffersAt changed host host') :
    host'.isExecutable = host.isExecutable := by
  funext path
  unfold Host.isExecutable Host.file?
  cases hstat : host.stat path with
  | error fault => rw [h.stat_error hstat]
  | ok found =>
    rcases h.stat_cases hstat with hsame | ⟨-, file, octets, hnode, hfile⟩
    · rw [hsame]
    · obtain ⟨place, node⟩ := found
      obtain rfl : node = .file file := hnode
      rw [hfile]
      rfl

theorem readOctets_eq (h : DiffersAt changed host host') {path : Path}
    (hkept : ∀ place, host.LeadsTo path place → ¬ changed place) :
    host'.readOctets path = host.readOctets path := by
  unfold Host.readOctets
  cases hstat : host.stat path.text with
  | error fault => rw [h.stat_error hstat]
  | ok found => rw [h.stat_kept hstat (hkept found.1 ⟨found.2, hstat⟩)]

theorem readText_eq (h : DiffersAt changed host host') {path : Path}
    (hkept : ∀ place, host.LeadsTo path place → ¬ changed place) :
    host'.readText path = host.readText path := by
  rw [Host.readText, h.readOctets_eq hkept, Host.readText]

/-! Resolving a path. -/

theorem linkAt?_eq (h : DiffersAt changed host host') (path : Path) :
    host'.tree.linkAt? host'.directory path = host.tree.linkAt? host.directory path := by
  rw [h.directory_eq]
  exact h.sameButFiles.linkAt?_eq host.directory path

theorem workingPath_eq (h : DiffersAt changed host host') :
    host'.workingPath = host.workingPath := by
  have hdirectory := h.directory_eq
  have hthere : (host'.tree.node? host.directory).isSome =
      (host.tree.node? host.directory).isSome := by
    rcases h.places host.directory with hsame | ⟨-, file, octets, hfile, hfile'⟩
    · rw [hsame]
    · rw [hfile, hfile']
      rfl
  unfold Host.workingPath
  rw [hdirectory, hthere]

theorem resolve_eq (h : DiffersAt changed host host') (path : Path) :
    host'.resolve path = host.resolve path := by
  have hdirectory := h.directory_eq
  have hfollowed : host'.tree.resolve host.directory path.text =
      host.tree.resolve host.directory path.text := by
    unfold FileTree.resolve
    rw [h.links]
    exact resolveFrom_congr (h.sameButFiles.linkAt?_eq host.directory) _ _ _ _
  have habsolute : ∀ path, host'.absolute path = host.absolute path := by
    intro path
    rw [Host.absolute, Host.absolute, h.workingPath_eq]
  have hending : host'.absoluteOf = host.absoluteOf := by
    funext resolution
    cases resolution with
    | complete place => exact habsolute place
    | looping text => exact habsolute _
  unfold Host.resolve
  rw [hdirectory, hfollowed, hending]
  simp only [h.walk_eq]
  split
  · rfl
  · cases host.absoluteOf (host.tree.resolve host.directory path.text) with
    | error fault => rfl
    | ok resolved =>
      simp only [bind, Except.bind]
      cases host.walk .target resolved.text with
      | error refusal => rfl
      | ok found => rfl

end DiffersAt

end MarkupTidy
