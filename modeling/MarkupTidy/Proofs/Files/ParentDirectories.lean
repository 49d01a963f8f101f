import MarkupTidy.Proofs.Files.AbsolutePaths
import MarkupTidy.Proofs.Files.Refusals
import MarkupTidy.Proofs.Files.SameButFiles

/-!
The directory above a file. The path of the directory goes the way of the file's path but for its
last steps, so the directory is there if the file is.
-/
namespace MarkupTidy

/-- The parts between slashes that are not empty are the words. -/
theorem Path.filter_split (text : String) :
    (Path.split text).filter (· != "") =
      (Text.words Path.isSlash text.toList).map String.ofList := by
  rw [Path.split, List.filter_map, Text.words]
  congr 1
  refine List.filter_congr fun piece _ => ?_
  cases piece <;> simp

namespace FileTree

/-! The way to a file. -/

/-- Empty steps and single dots leave a walk where it stands. -/
theorem walkFrom_blanks {tree : FileTree} {here : Location}
    (hhere : (tree.node? here).any Node.isDirectory = true) (links : Nat) {blanks : List String}
    (hblanks : ∀ part ∈ blanks, part = "" ∨ part = ".") :
    tree.walkFrom .target links here blanks = .ok (.node here .directory) := by
  have hnode : tree.node? here = some .directory := by
    cases hfound : tree.node? here with
    | none =>
      rw [hfound] at hhere
      cases hhere
    | some node =>
      rw [hfound] at hhere
      cases node with
      | directory => rfl
      | file file | link target => cases hhere
  induction blanks with
  | nil => rw [walkFrom, hnode]
  | cons part rest ih =>
    obtain ⟨hpart, hrest⟩ := List.forall_mem_cons.1 hblanks
    rw [walkFrom, if_pos hhere, if_pos hpart, ih hrest]

/-- Before the end of a walk that succeeds, and with blank steps behind, the walk stands in a
directory. -/
theorem walkFrom_front {tree : FileTree} {links : Nat} {here : Location}
    {left more : List String} {found : Found}
    (h : tree.walkFrom .target links here (left ++ more) = .ok found) (hmore : more ≠ [])
    {blanks : List String} (hblanks : ∀ part ∈ blanks, part = "" ∨ part = ".") :
    ∃ place, tree.walkFrom .target links here (left ++ blanks) = .ok (.node place .directory) := by
  fun_induction FileTree.walkFrom tree .target links here left with
  | case1 links here | case2 links here =>
    exact ⟨here, walkFrom_blanks (walkFrom_stands h hmore) links hblanks⟩
  | case3 links here part rest hhere hblank ih =>
    rw [List.cons_append, walkFrom, if_pos hhere, if_pos hblank] at h ⊢
    exact ih h
  | case4 links here rest hhere hblank ih =>
    rw [List.cons_append, walkFrom, if_pos hhere, if_neg hblank, if_pos rfl] at h ⊢
    exact ih h
  | case5 links here part rest hhere hblank hup hpurpose => cases hpurpose.1
  | case6 links here part rest hhere hblank hup hpurpose hlong =>
    rw [List.cons_append, walkFrom, if_pos hhere, if_neg hblank, if_neg hup, if_neg (by simp),
      if_pos hlong] at h
    cases h
  | case7 links here part rest hhere hblank hup hpurpose hshort hnode
  | case8 links here part rest hhere hblank hup hpurpose hshort hnode =>
    rw [List.cons_append, walkFrom, if_pos hhere, if_neg hblank, if_neg hup, if_neg (by simp),
      if_neg hshort, hnode] at h
    simp [hmore] at h
  | case9 links here part rest hhere hblank hup hpurpose hshort target hnode hrest =>
    simp at hrest
  | case10 here part rest hhere hblank hup hpurpose hshort target hnode hrest =>
    rw [List.cons_append, walkFrom, if_pos hhere, if_neg hblank, if_neg hup, if_neg (by simp),
      if_neg hshort, hnode] at h
    simp at h
  | case11 here part rest hhere hblank hup hpurpose hshort target hnode hrest links ih =>
    rw [List.cons_append, walkFrom, if_pos hhere, if_neg hblank, if_neg hup, if_neg (by simp),
      if_neg hshort, hnode] at h ⊢
    have hfollow : (Purpose.target == Purpose.link) = false := rfl
    simp only [hfollow, Bool.and_false, Bool.false_eq_true, if_false] at h ⊢
    rw [← List.append_assoc] at h ⊢
    exact ih h
  | case12 links here part rest hhere hblank hup hpurpose hshort node hlink hnode ih =>
    rw [List.cons_append, walkFrom, if_pos hhere, if_neg hblank, if_neg hup, if_neg (by simp),
      if_neg hshort, hnode] at h ⊢
    cases node with
    | link target => exact absurd rfl (hlink target)
    | directory | file file => exact ih h
  | case13 links here part rest hhere =>
    rw [List.cons_append, walkFrom, if_neg hhere] at h
    cases h

/-- Where links are asked for, a path that leads to a node leads to this node or to a link. -/
theorem walkFrom_link_of_target {tree : FileTree} {links : Nat} {here place : Location}
    {left : List String} {node : Node}
    (h : tree.walkFrom .target links here left = .ok (.node place node)) :
    ∃ last other, tree.walkFrom .link links here left = .ok (.node last other) ∧
      ((∃ target, other = .link target) ∨ last = place ∧ other = node) := by
  fun_induction FileTree.walkFrom tree .target links here left with
  | case1 links here node hnode =>
    cases h
    exact ⟨place, node, by rw [walkFrom, hnode], Or.inr ⟨rfl, rfl⟩⟩
  | case2 | case5 | case6 | case7 | case8 | case10 | case13 => cases h
  | case3 links here part rest hhere hblank ih =>
    rw [walkFrom, if_pos hhere, if_pos hblank]
    exact ih h
  | case4 links here rest hhere hblank ih =>
    rw [walkFrom, if_pos hhere, if_neg hblank, if_pos rfl]
    exact ih h
  | case9 links here part rest hhere hblank hup hpurpose hshort target hnode hrest =>
    simp at hrest
  | case11 here part rest hhere hblank hup hpurpose hshort target hnode hrest links ih =>
    rw [walkFrom, if_pos hhere, if_neg hblank, if_neg hup, if_neg (by simp), if_neg hshort, hnode]
    dsimp only
    split
    · exact ⟨_, _, rfl, Or.inl ⟨target, rfl⟩⟩
    · exact ih h
  | case12 links here part rest hhere hblank hup hpurpose hshort node hlink hnode ih =>
    rw [walkFrom, if_pos hhere, if_neg hblank, if_neg hup, if_neg (by simp), if_neg hshort, hnode]
    cases node with
    | link target => exact absurd rfl (hlink target)
    | directory | file file => exact ih h

/-! The path of a directory and the paths in it. -/

/-- The steps of a path are its words, with a slash at the end if the text ends in one. -/
theorem steps_eq_words (text : String) :
    ∃ slash, (slash = [] ∨ slash = [""]) ∧
      steps text = (Text.words Path.isSlash text.toList).map String.ofList ++ slash ∧
      (slash = [] → (Path.split text).getLast? = some "" →
        Text.words Path.isSlash text.toList = []) := by
  unfold steps
  dsimp only
  rw [Path.filter_split]
  split
  · exact ⟨[""], Or.inr rfl, rfl, fun hnil => absurd hnil (List.cons_ne_nil _ _)⟩
  · next hslash =>
    refine ⟨[], Or.inl rfl, (List.append_nil _).symm, fun _ hlast => ?_⟩
    simpa [hlast] using hslash

end FileTree

namespace Path

/-- The text of a path is that of its parent with a slash and a name. -/
theorem toList_text_of_parent {p : Path} (hanchor : p.anchor ≠ .none) (hparts : p.parts ≠ []) :
    ∃ front name rest, p.text.toList = front ++ '/' :: name ∧
      Text.words isSlash p.parent.text.toList = Text.words isSlash front ∧
      p.text = p.parent.text ++ rest := by
  have hsome : ¬ (p.anchor = .none ∧ p.parts = []) := fun hnone => hanchor hnone.1
  have hsome' : ¬ (p.parent.anchor = .none ∧ p.parent.parts = []) := fun hnone => hanchor hnone.1
  have hsplit : p.parts = p.parts.dropLast ++ [p.parts.getLast hparts] :=
    (List.dropLast_concat_getLast hparts).symm
  rw [text, if_neg hsome, text, if_neg hsome']
  simp only [parent]
  by_cases hinit : p.parts.dropLast = []
  · rw [hinit, List.nil_append] at hsplit
    rw [hinit, hsplit, String.intercalate_singleton, String.intercalate_nil, String.append_empty]
    cases hroot : p.anchor with
    | none => exact absurd hroot hanchor
    | root =>
      exact ⟨[], (p.parts.getLast hparts).toList, _, by simp [Anchor.text], rfl, rfl⟩
    | doubleRoot =>
      exact ⟨['/'], (p.parts.getLast hparts).toList, _, by simp [Anchor.text], rfl, rfl⟩
  · rw [hsplit, List.dropLast_concat,
      String.intercalate_append_of_ne_nil hinit (List.cons_ne_nil _ _),
      String.intercalate_singleton]
    refine ⟨(p.anchor.text ++ String.intercalate "/" p.parts.dropLast).toList,
      (p.parts.getLast hparts).toList, "/" ++ p.parts.getLast hparts, ?_, rfl, ?_⟩
    · simp
    · simp [String.append_assoc]

/-- The steps of a path are those of its parent with at least one more, but for the root. -/
theorem steps_parent {p : Path} (hanchor : p.anchor ≠ .none) (hparts : p.parts ≠ []) :
    ∃ front more slash, (slash = [] ∨ slash = [""]) ∧
      FileTree.steps p.parent.text = front ++ slash ∧ FileTree.steps p.text = front ++ more ∧
      (more = [] → front = []) := by
  obtain ⟨front, name, rest, htext, hwords, -⟩ := toList_text_of_parent hanchor hparts
  obtain ⟨slash, hslash, hparent, -⟩ := FileTree.steps_eq_words p.parent.text
  obtain ⟨behind, -, hsteps, hempty⟩ := FileTree.steps_eq_words p.text
  have hjoined : Text.words isSlash p.text.toList =
      Text.words isSlash p.parent.text.toList ++ Text.words isSlash name := by
    rw [htext, hwords, Text.words_append rfl]
  refine ⟨_, (Text.words isSlash name).map String.ofList ++ behind, slash, hslash, hparent, ?_, ?_⟩
  · rw [hsteps, hjoined, List.map_append, List.append_assoc]
  · intro hmore
    obtain ⟨hname, hbehind⟩ := List.append_eq_nil_iff.1 hmore
    have hblank : Text.words isSlash name = [] := List.map_eq_nil_iff.1 hname
    -- A name without words ends in an empty piece, and so does the path.
    have hlast : (split p.text).getLast? = some "" := by
      rw [split, htext, Text.pieces_append rfl, List.map_append, List.getLast?_append]
      have hpiece := List.getLast?_eq_some_getLast (Text.pieces_ne_nil isSlash name)
      have hnil : (Text.pieces isSlash name).getLast (Text.pieces_ne_nil isSlash name) = [] := by
        have hmem := List.filter_eq_nil_iff.1 hblank _ (List.mem_of_getLast? hpiece)
        simpa using hmem
      simp [List.getLast?_map, hpiece, hnil]
    have hnone := hempty hbehind hlast
    rw [hjoined, List.append_eq_nil_iff] at hnone
    rw [hnone.1, List.map_nil]

/-- The way of a path goes by another one, and on from there. -/
structure GoesBy (path above : Path) : Prop where
  start (here : Location) :
    FileTree.walkStart here above.text = FileTree.walkStart here path.text
  named : above.text.isEmpty = false
  short : above.text.utf8ByteSize ≤ path.text.utf8ByteSize
  hasNul : Host.hasNul path.text = false → Host.hasNul above.text = false
  steps : ∃ front more blanks, (∀ part ∈ blanks, part = "" ∨ part = ".") ∧
    FileTree.steps above.text = front ++ blanks ∧ FileTree.steps path.text = front ++ more ∧
    more ≠ []

theorem goesBy_parent {p : Path} (hanchor : p.anchor ≠ .none) (hparts : p.parts ≠ [])
    (hsteps : FileTree.steps p.text ≠ []) : p.GoesBy p.parent := by
  have habove : p.parent.anchor ≠ .none := hanchor
  obtain ⟨-, -, rest, -, -, htext⟩ := toList_text_of_parent hanchor hparts
  obtain ⟨front, more, slash, hslash, hparent, hpath, hempty⟩ := steps_parent hanchor hparts
  refine ⟨fun here => ?_, ?_, ?_, fun hnul => ?_, front, more, slash, ?_, hparent, hpath, ?_⟩
  · rw [FileTree.walkStart_text habove, FileTree.walkStart_text hanchor]
  · obtain ⟨first, hfirst⟩ := toList_text_of_anchored habove
    rw [← Bool.not_eq_true, String.isEmpty_iff]
    rintro hnil
    rw [hnil] at hfirst
    cases hfirst
  · rw [htext, String.utf8ByteSize_append]
    exact Nat.le_add_right _ _
  · rw [htext, Host.hasNul_append, Bool.or_eq_false_iff] at hnul
    exact hnul.1
  · rcases hslash with rfl | rfl <;> simp
  · intro hnil
    rw [hpath, hnil, hempty hnil] at hsteps
    exact hsteps rfl

end Path

namespace Host

open FileTree

theorem walk_eq_ok_iff (host : Host) {purpose : Purpose} {p : Path} (hanchor : p.anchor ≠ .none)
    (found : Found) :
    host.walk purpose p.text = .ok found ↔ isPathTooLong p.text = false ∧
      host.tree.walkFrom purpose linkLimit [] (steps p.text) = .ok found := by
  rw [walk, walk_text hanchor]
  cases isPathTooLong p.text <;> simp

/-- A path can be walked from where something is if the walk along its steps can. -/
theorem walk_iff_walkFrom {host : Host} {purpose : Purpose} {text : String} {found : Found}
    (hstart : (host.tree.node? (walkStart host.directory text)).isSome = true) :
    host.walk purpose text = .ok found ↔
      (text.isEmpty = false ∧ isPathTooLong text = false) ∧
        host.tree.walkFrom purpose linkLimit (walkStart host.directory text) (steps text) =
          .ok found := by
  have hsome : (host.tree.node? (walkStart host.directory text)).isNone = false := by
    rw [Option.isNone_eq_false_iff, hstart]
  rw [walk, FileTree.walk]
  cases text.isEmpty <;> cases isPathTooLong text <;> simp [hsome]

/-- The walk to a file begins where something is. -/
theorem start_of_stat {host : Host} {text : String} {place : Location} {file : File}
    (h : host.stat text = .ok (place, .file file)) :
    (host.tree.node? (walkStart host.directory text)).isSome = true := by
  obtain ⟨-, hwalk⟩ := (stat_eq_ok_iff ..).1 h
  by_contra hnone
  rw [Bool.not_eq_true, Option.isSome_eq_false_iff] at hnone
  rw [walk, FileTree.walk] at hwalk
  split at hwalk
  · cases hwalk
  · split at hwalk
    · cases hwalk
    · simp only [hnone, if_true, walkFromMissing] at hwalk
      split at hwalk <;> cases hwalk

theorem isDirectory_of_reach {host : Host} {path : Path} {place : Location}
    (h : host.reach .target path.text [path.text] = .ok (.node place .directory)) :
    host.isDirectory path = true := by
  rw [isDirectory, stat, h]

/-- A directory that is there stays as it is. -/
theorem orPresent_makeDirectory {host : Host} {path : Path} {place : Location} {node : Node}
    (hreach : host.reach .link path.text [path.text] = .ok (.node place node))
    (hthere : host.isDirectory path = true) :
    orPresent path (host.makeDirectory path) = (.ok ⟨⟩, host) := by
  rw [makeDirectory, hreach]
  simp [failed, orPresent, hthere, done]

theorem makeDirectories_present {host : Host} {path : Path} {place : Location} {node : Node}
    (hreach : host.reach .link path.text [path.text] = .ok (.node place node))
    (hthere : host.isDirectory path = true) :
    host.makeDirectories path = (.ok ⟨⟩, host) := by
  have hmade : host.makeDirectory path = host.failed .alreadyThere [path.text] := by
    rw [makeDirectory, hreach]
  have hpresent := orPresent_makeDirectory hreach hthere
  rw [makeDirectories, hmade]
  rwa [hmade] at hpresent

/-- The directories that the way to a file goes by are there. -/
theorem makeDirectories_of_goesBy {host : Host} {path above : Path} {place : Location}
    {file : File} (hgoes : path.GoesBy above)
    (hstat : host.stat path.text = .ok (place, .file file)) :
    host.makeDirectories above = (.ok ⟨⟩, host) := by
  have hstart := start_of_stat hstat
  obtain ⟨hnul, hwalk⟩ := (stat_eq_ok_iff ..).1 hstat
  obtain ⟨⟨-, hshort⟩, hfrom⟩ := (walk_iff_walkFrom hstart).1 hwalk
  obtain ⟨front, more, blanks, hblanks, habove, hpath, hmore⟩ := hgoes.steps
  have hshort' : isPathTooLong above.text = false := by
    have hsize := hgoes.short
    simp only [isPathTooLong, decide_eq_false_iff_not] at hshort ⊢
    omega
  have hnul' := hgoes.hasNul hnul
  rw [hpath] at hfrom
  obtain ⟨directory, htarget⟩ := walkFrom_front hfrom hmore hblanks
  rw [← habove] at htarget
  obtain ⟨last, node, hlink, -⟩ := walkFrom_link_of_target htarget
  rw [← hgoes.start] at hstart htarget hlink
  have hthere : host.isDirectory above = true := by
    have hway := (walk_iff_walkFrom hstart).2 ⟨⟨hgoes.named, hshort'⟩, htarget⟩
    rw [isDirectory, (stat_eq_ok_iff ..).2 ⟨hnul', hway⟩]
  have hway := (walk_iff_walkFrom hstart).2 ⟨⟨hgoes.named, hshort'⟩, hlink⟩
  exact makeDirectories_present (reach_iff_walk.2 ⟨hnul', hway⟩) hthere

/-- The directories above a file are there. -/
theorem makeDirectories_parent {host : Host} {path : Path} {place : Location} {file : File}
    (hanchor : path.anchor ≠ .none) (hstat : host.stat path.text = .ok (place, .file file)) :
    host.makeDirectories path.parent = (.ok ⟨⟩, host) := by
  obtain ⟨-, hwalk⟩ := (stat_eq_ok_iff ..).1 hstat
  obtain ⟨-, hfrom⟩ := (walk_eq_ok_iff host hanchor _).1 hwalk
  -- No steps at all lead to the root, which is no file.
  have hsteps : steps path.text ≠ [] := by
    intro hnil
    rw [hnil, walkFrom] at hfrom
    cases hfrom
  have hparts : path.parts ≠ [] := by
    intro hnil
    refine hsteps ?_
    obtain ⟨anchor, parts⟩ := path
    subst hnil
    cases anchor with
    | none => exact absurd rfl hanchor
    | root | doubleRoot => decide
  exact makeDirectories_of_goesBy (Path.goesBy_parent hanchor hparts hsteps) hstat

end Host

end MarkupTidy
