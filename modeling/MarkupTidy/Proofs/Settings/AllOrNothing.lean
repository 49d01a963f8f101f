import MarkupTidy.Proofs.Files.MadeDirectories
import MarkupTidy.Proofs.Files.PathSteps
import MarkupTidy.Proofs.Files.RootFiles
import MarkupTidy.Proofs.Settings.Saved

/-!
A file is replaced as a whole or not at all. Wherever the replacement fails, the files and links
that were there are there still, no temporary file is left, and nothing is new but directories. The
same holds of settings that are not saved, for whatever reason.
-/
namespace MarkupTidy

namespace Host

/-- Where a file cannot be replaced, at most directories are new. -/
theorem addsDirectories_of_replaceFile {host host' : Host} {path : Path}
    {octets : Text.Utf8.Octets} {fault : Fault}
    (h : host.replaceFile path octets = (.error fault, host')) : host.AddsDirectories host' := by
  obtain ⟨between, hmakes, ⟨other, hreplaced⟩ | ⟨-, -, _, -, -, -, hreplaced⟩⟩ :=
    replaceFile_cases host path octets
  · rw [hreplaced] at h
    cases h
    exact hmakes.adds
  · rw [hreplaced] at h
    cases h

end Host

namespace Settings

open Host

/-- Settings that are not saved leave at most new directories. -/
theorem addsDirectories_of_save {host host' : Host} {workspace : Path} {settings : Settings}
    {fault : Fault} (h : save host workspace settings = (.error fault, host')) :
    host.AddsDirectories host' := by
  unfold save at h
  dsimp only at h
  split at h
  · cases h
    exact .same host
  · next octets _ =>
    cases hreplace : host.replaceFile (filePath workspace) octets with
    | mk result left =>
      rw [hreplace] at h
      cases result with
      | ok done => cases h
      | error other =>
        cases h
        exact addsDirectories_of_replaceFile hreplace

/-- Settings are saved only where no step of replacing the file is refused. -/
theorem save_of_refused {host : Host} {step : ReplaceStep} {refusal : Refusal}
    (hrefused : host.refuses step = some refusal) (workspace : Path) (settings : Settings) :
    ∃ fault host', save host workspace settings = (.error fault, host') := by
  refine save_fails fun octets => ?_
  obtain ⟨between, -, ⟨fault, hreplaced⟩ | ⟨hrefuses, -⟩⟩ :=
    replaceFile_cases host (filePath workspace) octets
  · exact ⟨fault, between, hreplaced⟩
  · cases hrefused.symm.trans (hrefuses step)

/-- A path in text is written as a whole or not at all, and so are the settings of a workspace.
Where this fails, nothing is new but directories. Where it does not, no step was refused, the file
is at the end of the path, and the path reads it unless it leads through the link that was there. -/
theorem whole_or_unchanged (host : Host) (given : String) (octets : Text.Utf8.Octets) :
    ((∃ fault host', host.replaceFile (.ofText given) octets = (.error fault, host') ∧
        host.AddsDirectories host') ∨
      (∀ step, host.refuses step = none) ∧
        ∃ between place host', host.replaceFile (.ofText given) octets = (.ok ⟨⟩, host') ∧
          host.AddsDirectories between ∧
          between.walk .link (Path.ofText given).text = .ok (between.tree.foundAt place) ∧
          (between.tree.node? place).any Node.isDirectory = false ∧
          host' = between.withTree
            (between.tree.set place (.file ⟨octets, privateMode, none⟩)) ∧
          host'.tree.node? place = some (.file ⟨octets, privateMode, none⟩) ∧
          (host'.readOctets (.ofText given) = .ok octets ↔
            ¬ between.LeadsThroughItself (.ofText given))) ∧
    ∀ (workspace : Path) (settings : Settings) (fault : Fault) (host' : Host),
      save host workspace settings = (.error fault, host') → host.AddsDirectories host' := by
  refine ⟨?_, fun workspace settings fault host' hsave => addsDirectories_of_save hsave⟩
  obtain ⟨between, hmakes, ⟨fault, hreplaced⟩ | ⟨hrefuses, -, place, ⟨hparts, hname⟩, hreach,
    hfree, hreplaced⟩⟩ := replaceFile_cases host (.ofText given) octets
  · exact Or.inl ⟨fault, between, hreplaced, hmakes.adds⟩
  · have hends := (Path.isProper_ofText given).endsInName hparts hname
    refine Or.inr ⟨hrefuses, between, place, _, hreplaced, hmakes.adds,
      (reach_iff_walk.1 hreach).2, hfree, rfl,
      FileTree.node?_set_self _ (FileTree.ne_nil_of_node? hfree), ?_⟩
    exact readOctets_set_end hends hreach hfree octets

/-- A root directory on a device that lets no file take a name. -/
def frozenHost : Host where
  tree := ⟨[]⟩
  directory := []
  searchPath := ""
  refuses step := if step = .rename then some .denied else none

/-- Where the new file cannot take its name, settings are not saved and no file is there. -/
theorem whole_or_unchanged_frozen :
    ∃ fault host', save frozenHost topDirectory {} = (.error fault, host') ∧
      frozenHost.AddsDirectories host' := by
  obtain ⟨fault, host', hsave⟩ := save_of_refused (show frozenHost.refuses .rename = some .denied
    from rfl) topDirectory {}
  exact ⟨fault, host', hsave, (whole_or_unchanged frozenHost "/page.html" []).2 _ _ _ _ hsave⟩

/-- A root directory with a link to the directory beside it. -/
def aliasHost : Host where
  tree := ⟨[(["d"], .directory), (["x"], .link "d")]⟩
  directory := []
  searchPath := ""

/-- The link by a path that leads through it. -/
def aliasPath : Path := .ofText "/x/../x"

theorem walks_alias : Walks aliasPath.text ["x", "..", "x"] :=
  ⟨by decide, by decide, by decide, by decide, by decide⟩

theorem walks_aboveAlias : Walks aliasPath.parent.text ["x", ".."] :=
  ⟨by decide, by decide, by decide, by decide, by decide⟩

theorem isShort_alias : ∀ name ∈ ["d", "x"], FileTree.isNameTooLong name = false := by decide

/-- The walk through the link goes by its target. -/
theorem walkFrom_alias {tree : FileTree} (hlink : tree.node? ["x"] = some (.link "d"))
    (hdirectory : tree.node? ["d"] = some .directory) (purpose : Purpose)
    (rest : List String) :
    tree.walkFrom purpose FileTree.linkLimit [] ("x" :: ".." :: rest) =
      tree.walkFrom purpose 39 [] rest := by
  have hsteps : FileTree.steps "d" = ["d"] := by decide
  have hstart : FileTree.walkStart [] "d" = [] := by decide
  simp [FileTree.walkFrom, hlink, hdirectory, FileTree.node?_root, Node.isDirectory,
    isShort_alias, hsteps, hstart, FileTree.linkLimit]

theorem makeDirectories_alias :
    aliasHost.makeDirectories aliasPath.parent = (.ok ⟨⟩, aliasHost) := by
  have hreach : ∀ purpose, aliasHost.reach purpose aliasPath.parent.text
      [aliasPath.parent.text] = .ok (.node [] .directory) := by
    intro purpose
    rw [reach_eq aliasHost rfl walks_aboveAlias, walkFrom_alias rfl rfl, FileTree.walkFrom_nil]
    rfl
  exact makeDirectories_present (hreach .link) (isDirectory_of_reach (hreach .target))

theorem mayReplace_alias : aliasHost.MayReplace aliasPath := ⟨fun _ => rfl, by decide, by rfl⟩

theorem replaceFile_alias (octets : Text.Utf8.Octets) :
    aliasHost.replaceFile aliasPath octets = (.ok ⟨⟩, aliasHost.withTree
      (aliasHost.tree.set ["x"] (.file ⟨octets, privateMode, none⟩))) := by
  have hreach : ∀ paths, (aliasHost.withTree (aliasHost.tree.set
      [aliasHost.freshName [] aliasPath.suffix] (.file ⟨octets, privateMode, none⟩))).reach .link
        aliasPath.text paths = .ok (.node ["x"] (.link "d")) := by
    intro paths
    have hshort : ¬ FileTree.isNameTooLong "x" = true := by decide
    rw [reach_eq _ rfl walks_alias, walkFrom_alias rfl rfl,
      FileTree.walkFrom_last _ rfl (by decide) (by decide) hshort (Or.inl rfl)]
    rfl
  have hrefuses : aliasHost.refuses .makeParents = none := rfl
  have hnamed : aliasPath.parts ≠ [] ∧ aliasPath.name ≠ ".." := by decide
  have hlink : Node.link "d" ≠ .directory := nofun
  have hbeside := replaceBeside_of_reach mayReplace_alias rfl hnamed hlink hreach
  simp only [Host.replaceFile, hrefuses, makeDirectories_alias, hbeside]

/-- What is put in the place of a link is not read by a path that leads through this link. -/
theorem replaced_link_is_lost :
    ∃ host', aliasHost.replaceFile aliasPath (Text.Utf8.encode "new".toList) = (.ok ⟨⟩, host') ∧
      host'.readOctets aliasPath = .error (.refused ⟨.notADirectory, ["/x/../x"]⟩) := by
  refine ⟨_, replaceFile_alias _, ?_⟩
  have hwalk : ∀ {tree : FileTree} {file : File}, tree.node? ["x"] = some (.file file) →
      tree.walkFrom .target FileTree.linkLimit [] ["x", "..", "x"] = .error .notADirectory := by
    intro tree file hfile
    simp [FileTree.walkFrom, hfile, FileTree.node?_root, Node.isDirectory, isShort_alias]
  rw [readOctets, stat, reach_eq _ rfl walks_alias, hwalk rfl]
  rfl

end Settings

end MarkupTidy
