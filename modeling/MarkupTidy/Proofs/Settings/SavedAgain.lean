import MarkupTidy.Proofs.Files.ReplacedAgain
import MarkupTidy.Proofs.Settings.Loaded
import MarkupTidy.Proofs.Toml.Rewritten

/-!
Saving settings again. What the first save has written reads back as tables in the order in which
they were laid out, and the same settings among these tables are laid out to the same text. So a
second save puts the same octets in the same place, if there is still a way to it.
-/
namespace MarkupTidy.Settings

open Toml Host

/-- Settings are laid out the same among the tables that were read back from where they were
written. -/
theorem fileOctets_again {existing : Table} {settings : Settings} {octets : Text.Utf8.Octets}
    (hgenuine : Value.TableGenuine (Pairs.set tableName (.table settings.toTable) existing))
    (h : fileOctets existing settings = .ok octets) :
    fileOctets (arrangeTable (Pairs.set tableName (.table settings.toTable) existing)) settings =
      .ok octets := by
  have hlookup : (Pairs.set tableName (.table settings.toTable) existing).lookup tableName =
      some (.table settings.toTable) := by rw [Pairs.lookup_set, if_pos rfl]
  unfold fileOctets at h ⊢
  cases hwrite : Toml.write (Pairs.set tableName (.table settings.toTable) existing) with
  | error fault =>
    rw [hwrite] at h
    cases h
  | ok text =>
    rw [write_set_arrangeTable hgenuine.keys hlookup rfl hwrite, ← hwrite]
    exact h

theorem isProper_filePath (given : String) : (filePath (.ofText given)).IsProper := by
  intro part hpart
  simp only [filePath, Path.child, List.mem_append, List.mem_singleton] at hpart
  rcases hpart with (hpart | rfl) | rfl
  · exact Path.isProper_ofText given part hpart
  · decide
  · decide

/-- The settings file has no temporary name. -/
theorem name_filePath (workspace : Path) (n : Nat) :
    (filePath workspace).name ≠ temporaryName (filePath workspace).suffix n := by
  have hname : (filePath workspace).name = "config.toml" := by
    simp [filePath, Path.child, Path.name]
  intro hsame
  rw [hname] at hsame
  have hlists := congrArg String.toList hsame
  simp [temporaryName] at hlists

section Again

variable {host host' : Host} {given : String} {settings : Settings}

/-- The tables that a second save finds are those that the first one has written. -/
theorem existingTables_again {existing : Table} {octets : Text.Utf8.Octets}
    (hgenuine : Value.TableGenuine (Pairs.set tableName (.table settings.toTable) existing))
    (hoctets : fileOctets existing settings = .ok octets)
    (hread : host'.readOctets (filePath (.ofText given)) = .ok octets) :
    existingTables host' (filePath (.ofText given)) =
      .ok (arrangeTable (Pairs.set tableName (.table settings.toTable) existing)) := by
  have hexists := exists?_of_readOctets hread
  simp only [existingTables, hexists, hread, bind, Except.bind, if_true]
  exact readTables_written hgenuine hoctets _

/-- Saving the same settings a second time succeeds and leaves the host as it is, and with it what
the settings file holds; unless the file has replaced a link that the way to it, or to a temporary
file beside it, goes by. Then the second save fails. -/
theorem save_again {path : Path}
    (hsave : save host (.ofText given) settings = (.ok path, host'))
    (hoptions : ∀ entry ∈ settings.options.entries, entry.2.IsGenuine) :
    (¬ (host.makeDirectories path.parent).2.BlocksItself path →
      ∃ octets, host'.readOctets path = .ok octets ∧
        save host' (.ofText given) settings = (.ok path, host')) ∧
    ((host.makeDirectories path.parent).2.BlocksItself path →
      ∃ fault after, save host' (.ofText given) settings = (.error fault, after)) := by
  obtain rfl := path_of_save hsave
  obtain ⟨existing, octets, hexisting, hoctets, hreplace⟩ := save_parts hsave
  have hproper := isProper_filePath given
  have hname := name_filePath (.ofText given)
  refine ⟨fun hblocks => ⟨octets, ?_⟩,
    fun hblocks => save_fails (replaceFile_blocked hproper hname hreplace hblocks)⟩
  have hgenuine := (existingTables_genuine hexisting).set
    ((Value.isGenuine_table _).2 (genuine_toTable hoptions)) tableName
  have hread : host'.readOctets (filePath (.ofText given)) = .ok octets := by
    have hends : FileTree.EndsInName (FileTree.steps (filePath (.ofText given)).text) :=
      FileTree.endsInName_child _ (by decide) (by decide)
    have hway : ¬ (host.makeDirectories (filePath (.ofText given)).parent).2.LeadsThroughItself
        (filePath (.ofText given)) := by
      rintro ⟨place, target, hreach, hmem⟩
      exact hblocks ⟨place, target, hreach, Or.inl hmem⟩
    obtain ⟨place, hstat⟩ := stat_replaceFile hreplace hends hway
    exact (exists_of_stat hstat (isReadable_private octets)).2
  have hagain := save_of_octets (existingTables_again hgenuine hoctets hread)
    (fileOctets_again hgenuine hoctets)
  rw [replaceFile_again hproper hname hreplace hblocks] at hagain
  exact ⟨hread, hagain⟩

end Again

theorem not_blocksItself_shared :
    ¬ (sharedHost.makeDirectories (filePath topDirectory).parent).2.BlocksItself
      (filePath topDirectory) := by
  rw [makeDirectories_shared]
  rintro ⟨place, target, hreach, -⟩
  exact reach_shared_ne_link place target hreach

/-- Saving settings beside another table twice. -/
theorem save_again_shared :
    save sharedHost (.ofText "/") untimed =
      (.ok (filePath topDirectory), (save sharedHost (.ofText "/") untimed).2) ∧
    (∀ entry ∈ untimed.options.entries, entry.2.IsGenuine) ∧
    ¬ (sharedHost.makeDirectories (filePath topDirectory).parent).2.BlocksItself
      (filePath topDirectory) ∧
    ∃ octets, (save sharedHost (.ofText "/") untimed).2.readOctets (filePath topDirectory) =
        .ok octets ∧
      save (save sharedHost (.ofText "/") untimed).2 (.ofText "/") untimed =
        (.ok (filePath topDirectory), (save sharedHost (.ofText "/") untimed).2) := by
  have htop : Path.ofText "/" = topDirectory := by decide
  have hsave : save sharedHost (.ofText "/") untimed =
      (.ok (filePath topDirectory), (save sharedHost (.ofText "/") untimed).2) := by
    rw [htop]
    exact Prod.ext save_shared rfl
  have hoptions : ∀ entry ∈ untimed.options.entries, entry.2.IsGenuine :=
    fun entry hentry => by cases hentry
  exact ⟨hsave, hoptions, not_blocksItself_shared,
    (save_again hsave hoptions).1 not_blocksItself_shared⟩

/-- A link in the place of a settings file, to a directory beside it. -/
def detourHost : Host where
  tree := ⟨[([".tidyhtml"], .directory), ([".tidyhtml", "d"], .directory),
    ([".tidyhtml", "config.toml"], .link "d")]⟩
  directory := []
  searchPath := ""

/-- The root, by a way that leads through the link and then by a directory that is missing. -/
def detour : String := "/.tidyhtml/config.toml/../../q/.."

/-- The host when the missing directory was made. -/
def detourMade : Host := detourHost.withTree (detourHost.tree.set ["q"] .directory)

def detourPath : Path := filePath (.ofText detour)

theorem walks_detour : Walks detourPath.text
    [".tidyhtml", "config.toml", "..", "..", "q", "..", ".tidyhtml", "config.toml"] :=
  ⟨by decide, by decide, by decide, by decide, by decide⟩

theorem walks_detourParent : Walks detourPath.parent.text
    [".tidyhtml", "config.toml", "..", "..", "q", "..", ".tidyhtml"] :=
  ⟨by decide, by decide, by decide, by decide, by decide⟩

theorem walks_detourStart : Walks detourPath.parent.parent.text
    [".tidyhtml", "config.toml", "..", "..", "q", ".."] :=
  ⟨by decide, by decide, by decide, by decide, by decide⟩

theorem walks_detourMissing : Walks detourPath.parent.parent.parent.text
    [".tidyhtml", "config.toml", "..", "..", "q"] :=
  ⟨by decide, by decide, by decide, by decide, by decide⟩

theorem isShort_detour : ∀ name ∈ [".tidyhtml", "config.toml", "d", "q"],
    FileTree.isNameTooLong name = false := by decide

/-- The tree has the link, and the directory that it leads to. -/
structure HasDetour (tree : FileTree) : Prop where
  directory : tree.node? [".tidyhtml"] = some .directory
  beside : tree.node? [".tidyhtml", "d"] = some .directory
  link : tree.node? [".tidyhtml", "config.toml"] = some (.link "d")

theorem hasDetour : HasDetour detourHost.tree := ⟨rfl, rfl, rfl⟩

theorem hasDetour_made : HasDetour detourMade.tree := ⟨rfl, rfl, rfl⟩

namespace HasDetour

variable {tree : FileTree}

/-- The way through the link leads back to the root. -/
theorem walkFrom_eq (h : HasDetour tree) (purpose : Purpose) (rest : List String) :
    tree.walkFrom purpose FileTree.linkLimit []
        (".tidyhtml" :: "config.toml" :: ".." :: ".." :: rest) =
      tree.walkFrom purpose 39 [] rest := by
  have hsteps : FileTree.steps "d" = ["d"] := by decide
  have hstart : FileTree.walkStart [".tidyhtml"] "d" = [".tidyhtml"] := by decide
  simp [FileTree.walkFrom, h.directory, h.beside, h.link, FileTree.node?_root, Node.isDirectory,
    isShort_detour, hsteps, hstart, FileTree.linkLimit]

theorem walkFrom_missing (h : HasDetour tree) (hmissing : tree.node? ["q"] = none)
    (purpose : Purpose) (rest : List String) :
    tree.walkFrom purpose FileTree.linkLimit []
      (".tidyhtml" :: "config.toml" :: ".." :: ".." :: "q" :: ".." :: rest) =
        .error .noEntry := by
  rw [h.walkFrom_eq]
  simp [FileTree.walkFrom, hmissing, FileTree.node?_root, Node.isDirectory, isShort_detour]

theorem walkFrom_made (h : HasDetour tree) (hmade : tree.node? ["q"] = some .directory)
    (purpose : Purpose) (rest : List String) :
    tree.walkFrom purpose FileTree.linkLimit []
      (".tidyhtml" :: "config.toml" :: ".." :: ".." :: "q" :: ".." :: rest) =
        tree.walkFrom purpose 39 [] rest := by
  rw [h.walkFrom_eq]
  simp [FileTree.walkFrom, hmade, FileTree.node?_root, Node.isDirectory, isShort_detour]

end HasDetour

theorem missing_detour {text : String} {rest : List String}
    (hwalks : Walks text (".tidyhtml" :: "config.toml" :: ".." :: ".." :: "q" :: ".." :: rest))
    (purpose : Purpose) (paths : List String) :
    detourHost.reach purpose text paths = .error (.refused ⟨.noEntry, paths⟩) := by
  rw [reach_eq detourHost rfl hwalks, hasDetour.walkFrom_missing rfl]
  rfl

theorem exists?_detour : detourHost.exists? detourPath = .ok false := by
  simp [exists?, look, stat, missing_detour walks_detour, meansAbsent, Except.map]

theorem existingTables_detour : existingTables detourHost detourPath = .ok [] := by
  simp [existingTables, exists?_detour, bind, Except.bind]

/-- Making the directory above the settings file makes the one that is missing on the way. -/
theorem makeDirectories_detour :
    detourHost.makeDirectories detourPath.parent = (.ok ⟨⟩, detourMade) := by
  have hmissing : detourHost.makeDirectories detourPath.parent.parent.parent =
      (.ok ⟨⟩, detourMade) := by
    have hnone : detourHost.tree.node? ["q"] = none := rfl
    have hreach : detourHost.reach .link detourPath.parent.parent.parent.text
        [detourPath.parent.parent.parent.text] = .ok (.vacant ["q"]) := by
      rw [reach_eq detourHost rfl walks_detourMissing, hasDetour.walkFrom_eq]
      simp [FileTree.walkFrom, hnone, FileTree.node?_root, Node.isDirectory, isShort_detour,
        Except.mapError]
    unfold makeDirectories makeDirectory
    rw [hreach]
    rfl
  have hstart : ∀ purpose, detourMade.reach purpose detourPath.parent.parent.text
      [detourPath.parent.parent.text] = .ok (.node [] .directory) := by
    intro purpose
    rw [reach_eq detourMade rfl walks_detourStart, hasDetour_made.walkFrom_made rfl,
      FileTree.walkFrom_nil]
    rfl
  have hparent : ∀ purpose, detourMade.reach purpose detourPath.parent.text
      [detourPath.parent.text] = .ok (.node [".tidyhtml"] .directory) := by
    intro purpose
    rw [reach_eq detourMade rfl walks_detourParent, hasDetour_made.walkFrom_made rfl]
    simp [FileTree.walkFrom, hasDetour_made.directory, FileTree.node?_root, Node.isDirectory,
      isShort_detour, Except.mapError]
  rw [makeDirectories_of_missing (missing_detour walks_detourParent _ _) (by decide)
    ((makeDirectories_of_missing (missing_detour walks_detourStart _ _) (by decide) hmissing).trans
      (orPresent_makeDirectory (hstart .link) (isDirectory_of_reach (hstart .target))))]
  exact orPresent_makeDirectory (hparent .link) (isDirectory_of_reach (hparent .target))

/-- A file can be put in the place of the link, by way of a temporary file beside it. -/
theorem admits_detour : detourMade.Admits detourPath ⟨.root, [".tidyhtml"]⟩
    [".tidyhtml", "config.toml"] [".tidyhtml", ".tmp_00000000.toml"] where
  refuses _ := rfl
  named := by decide
  way := by
    rw [reach_eq detourMade rfl walks_detour, hasDetour_made.walkFrom_made rfl]
    simp [FileTree.walkFrom, FileTree.foundAt, hasDetour_made.directory, hasDetour_made.link,
      FileTree.node?_root, Node.isDirectory, isShort_detour, Except.mapError]
  free := rfl
  absolute := rfl
  vacant := by
    have htext : (detourMade.temporaryPath detourPath ⟨.root, [".tidyhtml"]⟩).text =
        "/.tidyhtml/.tmp_00000000.toml" := by decide
    have hnone : detourMade.tree.node? [".tidyhtml", ".tmp_00000000.toml"] = none := rfl
    rw [htext, reach_eq detourMade rfl walks_temporary]
    simp [FileTree.walkFrom, hasDetour_made.directory, hnone, FileTree.node?_root, Node.isDirectory,
      isShort_directory, isShort_temporary, Except.mapError]

theorem replaceFile_detour (octets : Text.Utf8.Octets) :
    detourHost.replaceFile detourPath octets = (.ok ⟨⟩, detourMade.withTree
      (detourMade.tree.set [".tidyhtml", "config.toml"] (.file ⟨octets, privateMode, none⟩))) := by
  have hrefuses : detourHost.refuses .makeParents = none := rfl
  rw [replaceFile, hrefuses, makeDirectories_detour]
  exact admits_detour.replaceBeside_eq (isProper_filePath detour) octets

theorem blocksItself_detour :
    (detourHost.makeDirectories detourPath.parent).2.BlocksItself detourPath := by
  rw [makeDirectories_detour, admits_detour.blocksItself_iff]
  left
  have hstart : FileTree.walkStart detourMade.directory detourPath.text = [] := walks_detour.start
  have hfirst : ∀ target, detourMade.tree.node? ([] ++ [".tidyhtml"]) ≠ some (.link target) := by
    intro target hlink
    cases hasDetour_made.directory.symm.trans hlink
  have hblank : ∀ part ∈ [".tidyhtml", "config.toml"], ¬ (part = "" ∨ part = ".") := by decide
  have hup : ∀ part ∈ [".tidyhtml", "config.toml"], ¬ part = ".." := by decide
  rw [LeadsThrough, walks_detour.steps, hstart,
    FileTree.linksOn_other _ _ (hblank _ (by decide)) (hup _ (by decide)) hfirst,
    FileTree.linkLimit, FileTree.linksOn_link 39 (hblank _ (by decide)) (hup _ (by decide))
      hasDetour_made.link rfl]
  exact List.mem_cons_self

theorem octets_detour : ∃ octets, fileOctets [] {} = .ok octets := by
  have hwritten : (fileOctets [] {}).isOk = true := rfl
  cases hoctets : fileOctets [] {} with
  | error fault =>
    rw [hoctets] at hwritten
    cases hwritten
  | ok octets => exact ⟨octets, rfl⟩

/-- Where a link lies in place of the settings file, and the way to it leads through this link and
then by a directory that is missing, there is no settings file yet, and the first save succeeds. The
second one does not. -/
theorem second_save_fails :
    detourHost.exists? (filePath (.ofText detour)) = .ok false ∧
    ∃ host', save detourHost (.ofText detour) {} = (.ok (filePath (.ofText detour)), host') ∧
      ∃ fault after, save host' (.ofText detour) {} = (.error fault, after) := by
  obtain ⟨octets, hoctets⟩ := octets_detour
  have hsave := save_of_octets existingTables_detour hoctets
  have hreplace := replaceFile_detour octets
  rw [← detourPath, hreplace] at hsave
  refine ⟨exists?_detour, _, hsave, save_fails ?_⟩
  exact replaceFile_blocked (isProper_filePath detour) (name_filePath _) hreplace
    blocksItself_detour

end MarkupTidy.Settings
