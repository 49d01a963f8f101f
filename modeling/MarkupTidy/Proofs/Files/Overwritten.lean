import MarkupTidy.Proofs.Files.ParentDirectories

/-!
Replacing a file that is there. The directories above it are there too, so the temporary file is
the only thing that is made besides; it is gone in the end, whether the replacement succeeds or not.
What is left is the host as it was, or with other octets in the place at the end of the path.
-/
namespace MarkupTidy

namespace FileTree

/-! A file that is there for a while. -/

theorem erase_set_of_none {tree : FileTree} {place : Location} (hnode : tree.node? place = none)
    (node : Node) : (tree.set place node).erase place = tree := by
  have hroot : place ≠ [] := ne_nil_of_node? (by rw [hnode]; rfl)
  have hlookup : tree.entries.lookup place = none := by simpa [node?, hroot] using hnode
  have hkept : tree.entries.filter (fun entry => entry.1 != place) = tree.entries := by
    refine List.filter_eq_self.2 fun entry hentry => bne_iff_ne.2 ?_
    rintro rfl
    exact Pairs.lookup_eq_none.1 hlookup (List.mem_map_of_mem hentry)
  simp [set, erase, Pairs.set_of_lookup_none hlookup, hkept]

theorem set_set (tree : FileTree) (place : Location) (first second : Node) :
    (tree.set place first).set place second = tree.set place second :=
  congrArg FileTree.mk (Pairs.set_set place first second tree.entries)

/-- A file that lies where nothing was stops a walk or is at its end, so a walk that succeeds went
the same way before. -/
theorem walkFrom_before_file {tree : FileTree} {file : File} {new : Location}
    (hnew : tree.node? new = none) {links : Nat} {here : Location} {left : List String}
    {found : Found}
    (h : (tree.set new (.file file)).walkFrom .link links here left = .ok found) :
    ∃ place, found = (tree.set new (.file file)).foundAt place ∧
      tree.walkFrom .link links here left = .ok (tree.foundAt place) := by
  have hroot : new ≠ [] := ne_nil_of_node? (by rw [hnew]; rfl)
  have hself : (tree.set new (.file file)).node? new = some (.file file) := node?_set_self _ hroot
  have hother : ∀ {place}, place ≠ new →
      (tree.set new (.file file)).node? place = tree.node? place := fun hne => node?_set_ne _ hne
  -- The walk stands in directories, and the file is none.
  have hstands : ∀ {place},
      ((tree.set new (.file file)).node? place).any Node.isDirectory = true →
        (tree.node? place).any Node.isDirectory = true := by
    intro place hplace
    by_cases hsame : place = new
    · rw [hsame, hself] at hplace
      cases hplace
    · rwa [hother hsame] at hplace
  fun_induction FileTree.walkFrom (tree.set new (.file file)) .link links here left with
  | case1 links here node hnode | case2 links here hnode =>
    exact ⟨here, by rw [← Except.ok.inj h, foundAt, hnode], walkFrom_nil tree .link links here⟩
  | case3 links here part rest hhere hblank ih =>
    obtain ⟨place, hfound, hwalk⟩ := ih h
    exact ⟨place, hfound, by rw [walkFrom, if_pos (hstands hhere), if_pos hblank, hwalk]⟩
  | case4 links here rest hhere hblank ih =>
    obtain ⟨place, hfound, hwalk⟩ := ih h
    exact ⟨place, hfound, by
      rw [walkFrom, if_pos (hstands hhere), if_neg hblank, if_pos rfl, hwalk]⟩
  | case5 | case6 | case8 | case10 | case13 => cases h
  | case7 links here part rest hhere hblank hup hpurpose hshort hnode hrest =>
    obtain rfl := List.isEmpty_iff.1 hrest
    refine ⟨here ++ [part], by rw [← Except.ok.inj h, foundAt, hnode], ?_⟩
    exact walkFrom_last links (hstands hhere) hblank hup hshort (Or.inl rfl)
  | case9 links here part rest hhere hblank hup hpurpose hshort target hnode hrest =>
    obtain rfl : rest = [] := by simpa using hrest
    refine ⟨here ++ [part], by rw [← Except.ok.inj h, foundAt, hnode], ?_⟩
    exact walkFrom_last links (hstands hhere) hblank hup hshort (Or.inl rfl)
  | case11 here part rest hhere hblank hup hpurpose hshort target hnode hrest links ih =>
    obtain ⟨place, hfound, hwalk⟩ := ih h
    have hne : here ++ [part] ≠ new := by
      intro hsame
      rw [hsame, hself] at hnode
      cases hnode
    rw [hother hne] at hnode
    refine ⟨place, hfound, ?_⟩
    rw [walkFrom, if_pos (hstands hhere), if_neg hblank, if_neg hup, if_neg hpurpose,
      if_neg hshort, hnode]
    simp only [hrest]
    exact hwalk
  | case12 links here part rest hhere hblank hup hpurpose hshort node hlink hnode ih =>
    cases rest with
    | nil =>
      rw [walkFrom_nil] at h
      exact ⟨here ++ [part], (Except.ok.inj h).symm,
        walkFrom_last links (hstands hhere) hblank hup hshort (Or.inl rfl)⟩
    | cons next more =>
      obtain ⟨place, hfound, hwalk⟩ := ih h
      have hinside := walkFrom_stands h (List.cons_ne_nil next more)
      have hne : here ++ [part] ≠ new := by
        intro hsame
        rw [hsame, hself] at hinside
        cases hinside
      rw [hother hne] at hnode
      refine ⟨place, hfound, ?_⟩
      rw [walkFrom, if_pos (hstands hhere), if_neg hblank, if_neg hup, if_neg hpurpose,
        if_neg hshort, hnode]
      cases node with
      | link target => exact absurd rfl (hlink target)
      | directory | file other => exact hwalk

end FileTree

namespace Host

open FileTree

/-! Replacing. -/

theorem withTree_set_set (host : Host) (place : Location) (first second : Node) :
    (host.withTree (host.tree.set place first)).withTree
        ((host.withTree (host.tree.set place first)).tree.set place second) =
      host.withTree (host.tree.set place second) :=
  congrArg host.withTree (set_set host.tree place first second)

/-- A file that a path leads to gets other permission bits. -/
theorem setMode_set {host : Host} {path : Path} {place : Location} {file : File}
    (hstat : (host.withTree (host.tree.set place (.file file))).stat path.text =
      .ok (place, .file file)) (mode : Nat) :
    (host.withTree (host.tree.set place (.file file))).setMode path mode =
      (.ok ⟨⟩, host.withTree (host.tree.set place (.file { file with mode }))) := by
  rw [setMode, hstat]
  dsimp only
  rw [withTree_set_set, done]

theorem createTemporary_cases (host : Host) (name : String) :
    (∃ fault, host.createTemporary name = (.error fault, host)) ∨
    host.refuses .createTemporary = none ∧ ∃ place, host.tree.node? place = none ∧
      host.createTemporary name =
        (.ok place, host.withTree (host.tree.set place (.file ⟨[], privateMode, none⟩))) := by
  unfold createTemporary
  split
  · exact Or.inl ⟨_, rfl⟩
  · exact Or.inl ⟨_, rfl⟩
  · exact Or.inl ⟨_, rfl⟩
  · next place hrefuses hreach => exact Or.inr ⟨hrefuses, place, reach_vacant hreach, rfl⟩

/-- Where an absolute path can be told, the walk along a path begins where something is. -/
theorem start_of_absolute {host : Host} {path directory : Path}
    (h : host.absolute path.parent = .ok directory) :
    (host.tree.node? (walkStart host.directory path.text)).isSome = true := by
  by_cases hanchor : path.anchor = .none
  · have hrelative : ¬ path.parent.isAbsolute = true := by
      simp [Path.isAbsolute, Path.parent, hanchor]
    have hthere : (host.tree.node? host.directory).isSome = true := by
      by_contra hgone
      rw [absolute, if_neg hrelative, workingPath, if_neg hgone] at h
      cases h
    rw [walkStart]
    split
    · rfl
    · exact hthere
  · rw [walkStart_text hanchor]
    rfl

/-- A file that is there for a while takes the place at the end of a path, if it is renamed. -/
theorem renameOver_cases {host : Host} {temporary : Location} {file : File}
    (hnew : host.tree.node? temporary = none) (paths : List String) {path : Path}
    (hstart : (host.tree.node? (walkStart host.directory path.text)).isSome = true) :
    (∃ fault, (host.withTree (host.tree.set temporary (.file file))).renameOver temporary paths
      path = (.error fault, host.withTree (host.tree.set temporary (.file file)))) ∨
    ∃ place, (path.parts ≠ [] ∧ path.name ≠ "..") ∧
      host.reach .link path.text [path.text] = .ok (host.tree.foundAt place) ∧
      (host.tree.node? place).any Node.isDirectory = false ∧
      (host.withTree (host.tree.set temporary (.file file))).renameOver temporary paths path =
        (.ok ⟨⟩, host.withTree (host.tree.set place (.file file))) := by
  have hroot : temporary ≠ [] := ne_nil_of_node? (by rw [hnew]; rfl)
  have hself : (host.withTree (host.tree.set temporary (.file file))).tree.node? temporary =
      some (.file file) := node?_set_self _ hroot
  unfold renameOver
  rw [hself]
  cases hreach : (host.withTree (host.tree.set temporary (.file file))).reach .link path.text
      paths with
  | error fault => exact Or.inl ⟨fault, rfl⟩
  | ok found =>
    dsimp only
    split
    · exact Or.inl ⟨_, rfl⟩
    · next hname =>
      have hnamed : path.parts ≠ [] ∧ path.name ≠ ".." := by simpa using hname
      have hbegins : ((host.withTree (host.tree.set temporary (.file file))).tree.node?
          (walkStart host.directory path.text)).isSome = true := by
        have hne : walkStart host.directory path.text ≠ temporary := by
          intro hsame
          rw [hsame, hnew] at hstart
          cases hstart
        exact (congrArg Option.isSome (node?_set_ne _ hne)).trans hstart
      obtain ⟨hnul, hwalk⟩ := reach_iff_walk.1 hreach
      obtain ⟨hvalid, hfrom⟩ := (walk_iff_walkFrom hbegins).1 hwalk
      obtain ⟨place, hfound, hbefore⟩ := walkFrom_before_file hnew hfrom
      have hway : host.reach .link path.text [path.text] = .ok (host.tree.foundAt place) :=
        reach_iff_walk.2 ⟨hnul, (walk_iff_walkFrom hstart).2 ⟨hvalid, hbefore⟩⟩
      have htree : ((host.tree.set temporary (.file file)).erase temporary).set place
          (.file file) = host.tree.set place (.file file) := by
        rw [erase_set_of_none hnew]
      have hsame : (host.tree.node? place).any Node.isDirectory =
          ((host.tree.set temporary (.file file)).node? place).any Node.isDirectory := by
        by_cases hplace : place = temporary
        · rw [hplace, hnew, node?_set_self _ hroot]
          rfl
        · rw [node?_set_ne _ hplace]
      cases hnode : (host.tree.set temporary (.file file)).node? place with
      | none =>
        rw [foundAt, hnode] at hfound
        subst hfound
        rw [hnode] at hsame
        refine Or.inr ⟨place, hnamed, hway, hsame, ?_⟩
        exact congrArg (fun tree => (Except.ok PUnit.unit, host.withTree tree)) htree
      | some node =>
        rw [foundAt, hnode] at hfound
        subst hfound
        rw [hnode] at hsame
        cases node with
        | directory => exact Or.inl ⟨_, rfl⟩
        | file other | link target =>
          refine Or.inr ⟨place, hnamed, hway, hsame, ?_⟩
          exact congrArg (fun tree => (Except.ok PUnit.unit, host.withTree tree)) htree

/-- Replacing a file in a directory that is there fails and leaves the host as it was, or no step is
refused and the new content is put at the end of the path. -/
theorem replaceBeside_cases (host : Host) (path : Path) (octets : Text.Utf8.Octets) :
    (∃ fault, host.replaceBeside path octets = (.error fault, host)) ∨
    (∀ step, step ≠ .makeParents → host.refuses step = none) ∧
      ∃ place, (path.parts ≠ [] ∧ path.name ≠ "..") ∧
        host.reach .link path.text [path.text] = .ok (host.tree.foundAt place) ∧
        (host.tree.node? place).any Node.isDirectory = false ∧
        host.replaceBeside path octets =
          (.ok ⟨⟩, host.withTree (host.tree.set place (.file ⟨octets, privateMode, none⟩))) := by
  unfold replaceBeside
  cases habsolute : host.absolute path.parent with
  | error fault => exact Or.inl ⟨fault, rfl⟩
  | ok directory =>
    have hstart := start_of_absolute habsolute
    dsimp only
    rcases createTemporary_cases host
        (directory.child (host.freshName directory.parts path.suffix)).text with
      ⟨fault, hmade⟩ | ⟨hcreate, temporary, hnew, hmade⟩
    · rw [hmade]
      exact Or.inl ⟨fault, rfl⟩
    · rw [hmade]
      have hback : ∀ (fault : Fault) (file : File), withoutTemporary temporary
          (.error fault, host.withTree (host.tree.set temporary (.file file))) =
            (.error fault, host) := by
        intro fault file
        exact congrArg (fun tree => (Except.error fault, host.withTree tree))
          (erase_set_of_none hnew _)
      dsimp only
      unfold fillAndRename
      dsimp only
      rw [withTree_set_set]
      split
      · exact Or.inl ⟨_, hback _ _⟩
      · next hfill =>
        split
        · exact Or.inl ⟨_, hback _ _⟩
        · next hrename =>
          rcases renameOver_cases hnew _ hstart with ⟨fault, hrenamed⟩ |
            ⟨place, hnamed, hway, hdirectory, hrenamed⟩
          · rw [hrenamed]
            exact Or.inl ⟨fault, hback _ _⟩
          · rw [hrenamed]
            refine Or.inr ⟨?_, place, hnamed, hway, hdirectory, rfl⟩
            rintro (_ | _ | _ | _) hstep
            exacts [absurd rfl hstep, hcreate, hfill, hrename]

/-- The path of a temporary file in a directory, for what will be at the path. -/
def temporaryPath (host : Host) (path directory : Path) : Path :=
  directory.child (host.freshName directory.parts path.suffix)

/-- A file that is there for a while takes the place that a path leads to. -/
theorem renameOver_of_reach {host : Host} {path : Path} {temporary place : Location}
    (hfree : host.tree.node? temporary = none) (file : File) {paths : List String}
    (hnamed : path.parts ≠ [] ∧ path.name ≠ "..")
    (hdirectory : ((host.tree.set temporary (.file file)).node? place).any Node.isDirectory = false)
    (hreach : (host.withTree (host.tree.set temporary (.file file))).reach .link path.text paths =
      .ok ((host.tree.set temporary (.file file)).foundAt place)) :
    (host.withTree (host.tree.set temporary (.file file))).renameOver temporary paths path =
      (.ok ⟨⟩, host.withTree (host.tree.set place (.file file))) := by
  have hroot : temporary ≠ [] := ne_nil_of_node? (by rw [hfree]; rfl)
  have hself : (host.withTree (host.tree.set temporary (.file file))).tree.node? temporary =
      some (.file file) := node?_set_self _ hroot
  have hname : (path.parts.isEmpty || path.name == "..") = false := by simpa using hnamed
  have hgone : (host.withTree (host.tree.set temporary (.file file))).tree.erase temporary =
      host.tree := erase_set_of_none hfree _
  rw [foundAt] at hreach
  cases hnode : (host.tree.set temporary (.file file)).node? place with
  | none =>
    rw [hnode] at hreach
    simp only [renameOver, hself, hreach, hname, hgone, Bool.false_eq_true, if_false]
    rfl
  | some node =>
    rw [hnode] at hreach hdirectory
    simp only [renameOver, hself, hreach, hname, hgone, Bool.false_eq_true, if_false]
    cases node with
    | directory => cases hdirectory
    | file other | link target => rfl

/-- A new file takes the place that a path leads to, by way of a temporary file. -/
theorem replaceBeside_of_ways {host : Host} {path directory : Path} {temporary place : Location}
    {octets : Text.Utf8.Octets} (hrefuses : ∀ step, host.refuses step = none)
    (habsolute : host.absolute path.parent = .ok directory)
    (hvacant : host.reach .link (host.temporaryPath path directory).text
      [(host.temporaryPath path directory).text] = .ok (.vacant temporary))
    (hnamed : path.parts ≠ [] ∧ path.name ≠ "..")
    (hdirectory : ((host.tree.set temporary (.file ⟨octets, privateMode, none⟩)).node? place).any
      Node.isDirectory = false)
    (hreach : ∀ paths, (host.withTree (host.tree.set temporary
        (.file ⟨octets, privateMode, none⟩))).reach .link path.text paths =
      .ok ((host.tree.set temporary (.file ⟨octets, privateMode, none⟩)).foundAt place)) :
    host.replaceBeside path octets =
      (.ok ⟨⟩, host.withTree (host.tree.set place (.file ⟨octets, privateMode, none⟩))) := by
  have hfree : host.tree.node? temporary = none := walk_vacant (reach_iff_walk.1 hvacant).2
  have hsteps : ∀ step, (host.withTree (host.tree.set temporary
      (.file ⟨[], privateMode, none⟩))).refuses step = none := hrefuses
  rw [temporaryPath] at hvacant
  simp only [replaceBeside, habsolute, createTemporary, hrefuses, hvacant, fillAndRename, hsteps,
    withTree_set_set, renameOver_of_reach hfree ⟨octets, privateMode, none⟩ hnamed hdirectory
      (hreach _)]
  rfl

/-- Overwriting a file to whose place the path itself leads fails and leaves the host as it was, or
gives the file at this place other octets, and nothing else. -/
theorem overwriteFile_cases {host : Host} {path : Path} {place : Location} {file : File}
    (hanchor : path.anchor ≠ .none) (hlink : host.tree.linkAt? host.directory path = none)
    (hstat : host.stat path.text = .ok (place, .file file)) (octets : Text.Utf8.Octets) :
    (∃ fault, host.overwriteFile path octets = (.error fault, host)) ∨
    host.overwriteFile path octets =
      (.ok ⟨⟩, host.withTree (host.tree.set place (.file ⟨octets, file.mode, none⟩))) := by
  unfold overwriteFile replaceFile
  rw [hstat, makeDirectories_parent hanchor hstat]
  cases host.refuses .makeParents with
  | some refusal => exact Or.inl ⟨_, rfl⟩
  | none =>
    dsimp only
    rcases replaceBeside_cases host path octets with ⟨fault, hreplaced⟩ |
      ⟨-, last, -, hway, -, hreplaced⟩
    · rw [hreplaced]
      exact Or.inl ⟨fault, rfl⟩
    · obtain ⟨-, hwalk⟩ := (stat_eq_ok_iff ..).1 hstat
      obtain ⟨hshort, hfrom⟩ := (walk_eq_ok_iff host hanchor _).1 hwalk
      obtain ⟨other, node, hfrom', hends⟩ := walkFrom_link_of_target hfrom
      have hway' := (walk_eq_ok_iff host hanchor _).2 ⟨hshort, hfrom'⟩
      have hplace : last = place := by
        rcases hends with ⟨target, rfl⟩ | ⟨rfl, rfl⟩
        · rw [walk] at hway'
          rw [linkAt?, hway'] at hlink
          cases hlink
        · rw [(reach_iff_walk.1 hway).2] at hway'
          exact (foundAt_eq_node (Except.ok.inj hway')).1
      subst hplace
      rw [hreplaced]
      refine Or.inr ?_
      dsimp only
      rw [setMode_set (stat_set_file hstat _)]

end Host

end MarkupTidy
