import MarkupTidy.Proofs.CommandLine.BareRoot
import MarkupTidy.Proofs.CommandLine.Rewritten
import MarkupTidy.Proofs.Files.MadeDirectories
import MarkupTidy.Proofs.Files.Resolved
import MarkupTidy.Proofs.Files.RootFiles

/-!
What a command line changes. Only formatting in place and making a settings file change anything:
the one gives other octets to files for which it shows the outcome that they are formatted, the
other makes the missing directories of the settings file and then at most the file itself. All else
stays as it was, however the run ends.
-/
namespace MarkupTidy

namespace CommandLine

open Formatter

/-! Commands. -/

/-- The files, resolved, name no links. -/
def ResolvesLinks (host : Host) (files : List Path) : Prop :=
  ∀ path ∈ files, ∀ resolved, host.resolve path = .ok resolved →
    host.tree.linkAt? host.directory resolved = none

/-- Absolute paths name no links once they are resolved, if they can be followed to the end. -/
theorem ResolvesLinks.of_complete {host : Host} {files : List Path}
    (h : ∀ path ∈ files, path.anchor ≠ .none ∧
      ∃ place, host.tree.resolve host.directory path.text = .complete place) :
    ResolvesLinks host files := by
  intro path hpath resolved hresolve
  obtain ⟨hanchor, place, hplace⟩ := h path hpath
  exact Host.linkAt?_resolve hanchor hplace hresolve

/-- Missing directories of the settings file of a workspace are made, and at most the file itself
is put there with standard settings among the tables that it had. -/
def MakesSettings (host : Host) (workspace : Path) (host' : Host) : Prop :=
  ∃ existing octets between,
    Settings.existingTables host (Settings.filePath workspace) = .ok existing ∧
    Settings.fileOctets existing initialSettings = .ok octets ∧
    Host.Makes (Settings.filePath workspace).parent.upward host between ∧
    Host.Puts (Settings.filePath workspace) octets between host'

/-- What a command may leave of a host. -/
def Allows (host : Host) : Invocation → Host → Prop
  | .format given tidy true stopOnWarning files, host' =>
    host' = host ∨ ∃ workspace settings resolved, workspaceOf host given = .ok workspace ∧
      Settings.load host workspace = .ok settings ∧ files.mapM host.resolve = .ok resolved ∧
      RewritesFormatted host (turns (formatFile true) host
        (newFormatter (withSwitches tidy stopOnWarning settings) workspace) resolved) host'
  | .init given _, host' =>
    host' = host ∨ ∃ workspace, workspaceOf host given = .ok workspace ∧
      MakesSettings host workspace host'
  | _, host' => host' = host

theorem host_refuseSettings (host : Host) (fault : Fault) :
    (refuseSettings host fault).host = host := by
  cases fault <;> rfl

/-- Work on files that leaves the host does so for a whole command. -/
theorem host_runOnFiles_of_kept {work : Host → Formatter → Path → Work}
    (hkept : ∀ host f path, (work host f path).host = host) (host : Host) (workspace : Path)
    (override : Settings → Settings) (files : List Path) :
    (runOnFiles host workspace override files work).host = host := by
  unfold runOnFiles
  cases Settings.load host workspace with
  | error fault => exact host_refuseSettings host fault
  | ok settings =>
    dsimp only
    cases files.mapM host.resolve with
    | error fault => rfl
    | ok resolved => exact host_onFiles_of_kept hkept host _ resolved

theorem host_inWorkspace_of_kept {host : Host} {given : Option Path} {run : Path → Finish}
    (hkept : ∀ workspace, (run workspace).host = host) :
    (inWorkspace host given run).host = host := by
  unfold inWorkspace
  split
  · rfl
  · exact hkept _

/-- Saving settings leaves the host, or makes a settings file. -/
theorem save_makes (host : Host) (workspace : Path) :
    (Settings.save host workspace initialSettings).2 = host ∨
      MakesSettings host workspace (Settings.save host workspace initialSettings).2 := by
  unfold Settings.save
  dsimp only
  split
  · exact Or.inl rfl
  · next octets hcontent =>
    obtain ⟨existing, hexisting, hoctets⟩ : ∃ existing,
        Settings.existingTables host (Settings.filePath workspace) = .ok existing ∧
        Settings.fileOctets existing initialSettings = .ok octets := by
      cases htables : Settings.existingTables host (Settings.filePath workspace) with
      | error fault =>
        rw [htables] at hcontent
        cases hcontent
      | ok existing =>
        rw [htables] at hcontent
        exact ⟨existing, rfl, hcontent⟩
    obtain ⟨between, hmakes, hputs⟩ :=
      Host.replaceFile_puts host (Settings.filePath workspace) octets
    exact Or.inr ⟨existing, octets, between, hexisting, hoctets, hmakes, hputs⟩

theorem runInit_allowed {host : Host} {given : Option Path} {workspace : Path}
    (hworkspace : workspaceOf host given = .ok workspace) (force : Bool) :
    Allows host (.init given force) (runInit host workspace force).host := by
  have hsave := save_makes host workspace
  unfold runInit
  dsimp only
  split
  · exact Or.inl rfl
  · split
    · exact Or.inl rfl
    · cases hsaved : Settings.save host workspace initialSettings with
      | mk result left =>
        rw [hsaved] at hsave
        have hleft : Allows host (.init given force) left :=
          hsave.imp_right fun hmakes => ⟨workspace, hworkspace, hmakes⟩
        cases result with
        | error fault =>
          dsimp only
          rwa [host_refuseSettings]
        | ok path => exact hleft

theorem mem_mapM {α β : Type} {f : α → Except Fault β} {items : List α} {results : List β}
    (h : items.mapM f = .ok results) {result : β} (hresult : result ∈ results) :
    ∃ item ∈ items, f item = .ok result := by
  induction items generalizing results with
  | nil =>
    cases h
    cases hresult
  | cons item rest ih =>
    rw [List.mapM_cons] at h
    cases hitem : f item with
    | error fault =>
      rw [hitem] at h
      cases h
    | ok first =>
      rw [hitem] at h
      cases hrest : rest.mapM f with
      | error fault =>
        rw [hrest] at h
        cases h
      | ok others =>
        rw [hrest] at h
        cases h
        rcases List.mem_cons.1 hresult with rfl | hmem
        · exact ⟨item, List.mem_cons_self, hitem⟩
        · obtain ⟨other, hother, heq⟩ := ih hrest hmem
          exact ⟨other, List.mem_cons_of_mem _ hother, heq⟩

theorem runOnFiles_allowed {host : Host} {given tidy : Option Path} {stopOnWarning : Bool}
    {files : List Path} {workspace : Path} (hworkspace : workspaceOf host given = .ok workspace)
    (hlinks : ResolvesLinks host files) :
    Allows host (.format given tidy true stopOnWarning files) (runOnFiles host workspace
      (withSwitches tidy stopOnWarning) files (formatFile true)).host := by
  unfold runOnFiles
  cases hload : Settings.load host workspace with
  | error fault => exact Or.inl (host_refuseSettings host fault)
  | ok settings =>
    dsimp only
    cases hresolve : files.mapM host.resolve with
    | error fault => exact Or.inl rfl
    | ok resolved =>
      refine Or.inr ⟨workspace, settings, resolved, hworkspace, hload, hresolve, ?_⟩
      refine onFiles_rewrites _ fun path hpath => ?_
      obtain ⟨given, hgiven, hpath⟩ := mem_mapM hresolve hpath
      exact ⟨Host.anchor_resolve hpath, hlinks given hgiven path hpath⟩

theorem inWorkspace_allowed {host : Host} {given : Option Path} {run : Path → Finish}
    {invocation : Invocation} (hnothing : Allows host invocation host)
    (hrun : ∀ workspace, workspaceOf host given = .ok workspace →
      Allows host invocation (run workspace).host) :
    Allows host invocation (inWorkspace host given run).host := by
  unfold inWorkspace
  split
  · exact hnothing
  · next workspace hworkspace => exact hrun workspace hworkspace

/-- Every command may leave the host as it is. -/
theorem allows_refl (host : Host) (invocation : Invocation) : Allows host invocation host := by
  cases invocation with
  | format given tidy inPlace stopOnWarning files =>
    cases inPlace with
    | true => exact Or.inl rfl
    | false => rfl
  | init given force => exact Or.inl rfl
  | help _ | misuse _ _ | version | lint _ _ _ => rfl

theorem invoke_allowed {host : Host} (commit : Version.Answer) {invocation : Invocation}
    (hlinks : ∀ given tidy stopOnWarning files,
      invocation = .format given tidy true stopOnWarning files → ResolvesLinks host files) :
    Allows host invocation (invoke host commit invocation).host := by
  cases invocation with
  | help _ | misuse _ _ | version => rfl
  | init given force =>
    exact inWorkspace_allowed (allows_refl host _) fun _ hworkspace =>
      runInit_allowed hworkspace force
  | lint given tidy files =>
    refine host_inWorkspace_of_kept fun workspace => host_runOnFiles_of_kept ?_ ..
    exact fun host f path => (lintFile_keeps host f path).1
  | format given tidy inPlace stopOnWarning files =>
    cases inPlace with
    | false =>
      refine host_inWorkspace_of_kept fun workspace => host_runOnFiles_of_kept ?_ ..
      exact host_formatFile_printed
    | true =>
      exact inWorkspace_allowed (allows_refl host _) fun _ hworkspace =>
        runOnFiles_allowed hworkspace (hlinks given tidy stopOnWarning files rfl)

/-- Whatever a command line asks for, and however its run ends: it leaves the host as it was, but
for formatting in place and for making a settings file, which change only what they may. The paths
of files to be formatted in place have to be resolved to the end. -/
theorem run_allowed (host : Host) (call : Call)
    (hlinks : ∀ given tidy stopOnWarning files,
      Invocation.ofArguments call.arguments = .format given tidy true stopOnWarning files →
        ResolvesLinks host files) :
    Allows host (Invocation.ofArguments call.arguments) (run host call).host := by
  unfold run
  split
  · exact allows_refl host _
  · exact invoke_allowed call.commit hlinks

/-- A host where one name leads to a page by a link, and another one to itself. -/
def strayHost : Host where
  tree := ⟨[(["tidy"], .file ⟨[], 0o755, some capitals.engine⟩),
    (["a.html"], .file page), (["x"], .link "a.html"), (["loop"], .link "loop")]⟩
  directory := []
  searchPath := ""

/-- A run that formats this file in place. -/
def callFor (file : String) : Call :=
  ⟨["format", "-i", "--tidy", "/tidy", "--workspace", "/", file], none, .missing⟩

theorem run_allowed_page :
    (∀ given tidy stopOnWarning files,
      Invocation.ofArguments (callFor "/a.html").arguments =
        .format given tidy true stopOnWarning files → ResolvesLinks strayHost files) ∧
    Allows strayHost (Invocation.ofArguments (callFor "/a.html").arguments)
      (run strayHost (callFor "/a.html")).host := by
  have hlinks : ∀ given tidy stopOnWarning files,
      Invocation.ofArguments (callFor "/a.html").arguments =
        .format given tidy true stopOnWarning files → ResolvesLinks strayHost files := by
    rintro given tidy stopOnWarning files ⟨⟩
    refine ResolvesLinks.of_complete fun path hpath => ?_
    obtain rfl := List.mem_singleton.1 hpath
    have hplain : IsPlainName "a.html" := by decide
    have hother : ∀ target, strayHost.tree.node? ["a.html"] ≠ some (.link target) := nofun
    exact ⟨Anchor.noConfusion, _, hplain.complete hother⟩
  exact ⟨hlinks, run_allowed strayHost (callFor "/a.html") hlinks⟩

namespace strayHost

theorem isBare : IsBare strayHost := ⟨rfl, rfl⟩

theorem isEngine : IsEngine strayHost "tidy" capitals.engine := ⟨by decide, _, rfl⟩

/-- The name of the link leads to the page. -/
theorem walk_x : strayHost.walk .target (Path.ofParts ["x"]).text =
    .ok (.node ["a.html"] (.file page)) := by
  have hplain : IsPlainName "x" := by decide
  have hsteps : FileTree.steps "a.html" = ["a.html"] := by decide
  have hstart : FileTree.walkStart [] "a.html" = [] := by decide
  have hname : FileTree.isNameTooLong "x" = false := by decide
  have hpage : FileTree.isNameTooLong "a.html" = false := by decide
  rw [Host.walk, FileTree.walk_text (by exact Anchor.noConfusion), hplain.isPathTooLong_eq,
    hplain.steps_eq]
  simp [FileTree.walkFrom, FileTree.node?, Node.isDirectory, strayHost, hname, hpage, hsteps,
    hstart, FileTree.linkLimit, List.lookup_cons]

theorem resolve_loop :
    strayHost.resolve ⟨.root, ["loop", "..", "x"]⟩ = .ok (.ofParts ["x"]) :=
  Host.resolve_behind_loop rfl rfl walk_x

theorem resolve_x : strayHost.resolve (.ofParts ["x"]) = .ok (.ofParts ["a.html"]) := by
  have hplain : IsPlainName "x" := by decide
  have hpage : IsPlainName "a.html" := by decide
  have hother : ∀ target, strayHost.tree.node? ["a.html"] ≠ some (.link target) := nofun
  have hlink : strayHost.tree.linkAt? [] ⟨.root, ["x"]⟩ = some "a.html" :=
    hplain.linkAt?_eq_some strayHost rfl
  have hnone : strayHost.tree.linkAt? [] ⟨.root, ["a.html"]⟩ = none :=
    hpage.linkAt?_eq_none hother
  have hbegin : FileTree.startOf ⟨.none, []⟩ (Path.ofParts ["x"]).text = ⟨.root, []⟩ := by decide
  have hagain : FileTree.startOf ⟨.root, []⟩ "a.html" = ⟨.root, []⟩ := by decide
  have hsplit : Path.split "a.html" = ["a.html"] := by decide
  have hcomplete : strayHost.tree.resolve [] (Path.ofParts ["x"]).text =
      .complete (.ofParts ["a.html"]) := by
    simp [FileTree.resolve, hbegin, hplain.split_eq, FileTree.resolveFrom, Path.child, hlink,
      hagain, hsplit, hnone]
    rfl
  have habsolute : strayHost.absolute (Path.ofParts ["a.html"]) = .ok (.ofParts ["a.html"]) := by
    rfl
  have hdirectory : strayHost.directory = [] := rfl
  simp only [Host.resolve, hplain.hasNul_eq, hdirectory, hcomplete, Host.absoluteOf, habsolute,
    bind, Except.bind, hpage.walk_eq strayHost (Or.inr hother), Bool.false_eq_true, if_false]

theorem stat_x : strayHost.stat (Path.ofParts ["x"]).text =
    .ok (["a.html"], .file page) :=
  (Host.stat_eq_ok_iff ..).2 ⟨by decide, walk_x⟩

theorem readText_x : strayHost.readText (.ofParts ["x"]) = .ok "<p>" :=
  readText_page stat_x

/-- The new formatter of a run with this engine. -/
def formatter : Formatter :=
  newFormatter (withSwitches (some (.ofParts ["tidy"])) false {}) (.ofParts [])

/-- The request for the link launches the engine on the text of the page. -/
def job : Job := ⟨"<p>", formatter.settings, [], ⟨"/tidy", .ends capitalsRun⟩⟩

theorem begins_x :
    (formatter.beginRequest strayHost (.file (.ofParts ["x"]))).value.1 = .running job := by
  have hfound : (formatter.findEngine strayHost).value.1 = ⟨some "/tidy", []⟩ :=
    isEngine.findEngine (by decide)
  have hresolved : (formatter.resolver.optionsFor strayHost
      (Document.file (.ofParts ["x"])).path?).value.1 = .ok ⟨.empty, none, []⟩ :=
    isBare.optionsFor rfl resolve_x
  have hderived : DerivedOptions.derive "<p>" .empty formatter.settings = .ok .empty := rfl
  have harguments : (OptionMap.empty.mergeOne .empty).withFixed.arguments =
      .ok ["--tidy-mark", "no", "--force-output", "yes", "--quiet", "no"] := rfl
  have hread : (Document.file (.ofParts ["x"])).text strayHost = .ok "<p>" := readText_x
  exact isEngine.begins hfound hread (by decide) hresolved hderived harguments (by decide)
    (by decide)

theorem mayReplace_x : strayHost.MayReplace (.ofParts ["x"]) :=
  ⟨fun _ => rfl, by decide, by rfl⟩

/-- The new content takes the place of the link. -/
theorem overwriteFile_x (octets : Text.Utf8.Octets) :
    strayHost.overwriteFile (.ofParts ["x"]) octets =
      (.ok ⟨⟩, strayHost.withTree (strayHost.tree.set ["x"] (.file ⟨octets, 0o644, none⟩))) := by
  have hplain : IsPlainName "x" := by decide
  have hnode : strayHost.tree.node? ["x"] = some (.link "a.html") := rfl
  exact hplain.overwriteFile_eq hnode stat_x mayReplace_x octets

theorem host_format_x :
    (formatter.format strayHost (.file (.ofParts ["x"]))).value.1.2.host =
      strayHost.withTree (strayHost.tree.set ["x"]
        (.file ⟨[0x3C, 0x50, 0x3E], 0o644, none⟩)) := by
  have hread : Execution.ofRun capitalsRun = ⟨"<P>", "!", some 1⟩ := by decide +kernel
  have hencoded : Text.Utf8.encode "<P>".toList = [0x3C, 0x50, 0x3E] := by decide
  have hnone : hindrance? job.settings ⟨"<P>", "!", some 1⟩ = none := by decide
  rw [value_format_beginRequest, begins_x, resultOf,
    finishRequest_known strayHost job _ capitalsRun rfl (Or.inr (Or.inl rfl)), hread]
  simp only [settle, hnone, changed_apply, Document.setText, hencoded, overwriteFile_x]

end strayHost

/-- The link does not lead to the formatted page: a file has taken its place. -/
theorem stray_link_replaced :
    strayHost.resolve ⟨.root, ["loop", "..", "x"]⟩ = .ok (.ofParts ["x"]) ∧
    strayHost.tree.node? ["x"] = some (.link "a.html") ∧
    (run strayHost (callFor "/loop/../x")).host.tree.node? ["x"] =
      some (.file ⟨[0x3C, 0x50, 0x3E], 0o644, none⟩) := by
  refine ⟨strayHost.resolve_loop, rfl, ?_⟩
  have hlevel : Level.ofName? (levelName (callFor "/loop/../x")) = some .warning := by decide
  have hasked : Invocation.ofArguments (callFor "/loop/../x").arguments =
      .format (some (.ofParts [])) (some (.ofParts ["tidy"])) true false
        [⟨.root, ["loop", "..", "x"]⟩] := by rfl
  have hlinks : [(⟨.root, ["loop", "..", "x"]⟩ : Path)].mapM strayHost.resolve =
      .ok [.ofParts ["x"]] := by
    simp only [List.mapM_cons, List.mapM_nil, strayHost.resolve_loop]
    rfl
  have hthere : strayHost.exists? (.ofParts ["x"]) = .ok true :=
    (Host.exists_of_stat strayHost.stat_x (by decide)).1
  have hformatted : (formatFile true strayHost strayHost.formatter (.ofParts ["x"])).host =
      strayHost.withTree (strayHost.tree.set ["x"] (.file ⟨[0x3C, 0x50, 0x3E], 0o644, none⟩)) := by
    simp only [formatFile, ifPresent, hthere, if_true, host_formatDocument,
      strayHost.host_format_x]
  have hfiles : (onFiles (formatFile true) strayHost strayHost.formatter
      [.ofParts ["x"]]).host =
      (formatFile true strayHost strayHost.formatter (.ofParts ["x"])).host := by
    rw [host_onFiles_cons]
    cases (formatFile true strayHost strayHost.formatter (.ofParts ["x"])).success <;> rfl
  have hrun : (run strayHost (callFor "/loop/../x")).host = (onFiles (formatFile true) strayHost
      strayHost.formatter [.ofParts ["x"]]).host := by
    simp only [run, hlevel, hasked, invoke, inWorkspace, workspaceOf, Host.resolve_root,
      runOnFiles, strayHost.isBare.load, hlinks, finishWork]
    rfl
  rw [hrun, hfiles, hformatted]
  exact FileTree.node?_set_self _ (by decide)

end CommandLine

end MarkupTidy
