import Mathlib.Data.List.Forall2
import MarkupTidy.Proofs.CommandLine.Changes
import MarkupTidy.Proofs.CommandLine.FileInPlace
import MarkupTidy.Proofs.Files.PathSteps
import MarkupTidy.Proofs.Text.Utf8

/-!
Formatting files in place, and to be printed. A run in place changes the host while it goes on, but
no file that is read for a file behind; so each file comes to the same as in a run that prints, and
what that run prints is what this one leaves in the files.
-/
namespace MarkupTidy.CommandLine

open Formatter

/-- If the turn comes to write its file, this does not fail. -/
def Turn.WritesDone (turn : Turn) : Prop :=
  Formatter.WritesDone turn.host turn.formatter turn.path

/-- No file is read for one behind it: none is that document itself, or the override file that
counts for it, or opened to launch the engine. -/
def IsApart (host : Host) (settings : Settings) (files : List Path) : Prop :=
  files.Pairwise fun earlier later =>
    ∀ place, Reads host settings later place → ¬ host.LeadsTo earlier place

/-- The file holds the text. -/
def Holds (host : Host) (path : Path) (text : String) : Prop :=
  host.readOctets path = .ok (Text.Utf8.encode text.toList)

/-- The turns of a run that prints and of one in place agree. What is printed are the texts that the
files hold in the end whose turns have formatted them. -/
structure RunsAgree (printed inPlace : List Turn) (shown : String) (left : Host) : Prop where
  ends : List.Forall₂ (fun printed inPlace : Turn =>
    inPlace.path = printed.path ∧ printed.EndsAlike inPlace) printed inPlace
  texts : ∃ texts, List.Forall₂ (fun (turn : Turn) text => Holds left turn.path text)
    (inPlace.filter Turn.isFormatted) texts ∧ shown = String.join texts

theorem holds_of_set {host : Host} {path : Path} {place : Location} {file : File}
    (hstat : host.stat path.text = .ok (place, .file file)) (hreadable : file.isReadable = true)
    (text : String) :
    (host.withTree (host.tree.set place
        (.file ⟨Text.Utf8.encode text.toList, file.mode, none⟩))).LeadsTo path place ∧
      Holds (host.withTree (host.tree.set place
        (.file ⟨Text.Utf8.encode text.toList, file.mode, none⟩))) path text := by
  have hset := Host.stat_set_file hstat ⟨Text.Utf8.encode text.toList, file.mode, none⟩
  have hbits : File.isReadable ⟨Text.Utf8.encode text.toList, file.mode, none⟩ = true := hreadable
  refine ⟨⟨_, hset⟩, ?_⟩
  simp only [Holds, Host.readOctets, hset, hbits, if_true]

namespace RunsAgree

variable {printed inPlace : List Turn} {shown : String} {left : Host} {turn turn' : Turn}

theorem nil (left : Host) : RunsAgree [] [] "" left := ⟨.nil, [], .nil, rfl⟩

theorem cons_kept (h : RunsAgree printed inPlace shown left) (hends : turn.EndsAlike turn')
    (hpath : turn'.path = turn.path) (hunformatted : turn'.isFormatted = false) :
    RunsAgree (turn :: printed) (turn' :: inPlace) shown left := by
  refine ⟨.cons ⟨hpath, hends⟩ h.ends, ?_⟩
  rw [List.filter_cons_of_neg (by rw [hunformatted]; exact Bool.false_ne_true)]
  exact h.texts

theorem cons_written (h : RunsAgree printed inPlace shown left) (hends : turn.EndsAlike turn')
    (hpath : turn'.path = turn.path) (hformatted : turn'.isFormatted = true) {text : String}
    (hholds : Holds left turn'.path text) :
    RunsAgree (turn :: printed) (turn' :: inPlace) (text ++ shown) left := by
  obtain ⟨texts, hholdsRest, hshown⟩ := h.texts
  refine ⟨.cons ⟨hpath, hends⟩ h.ends, text :: texts, ?_, ?_⟩
  · rw [List.filter_cons_of_pos hformatted]
    exact .cons hholds hholdsRest
  · rw [String.join_cons, hshown]

end RunsAgree

section Runs

variable {changed : Location → Prop} {host host' : Host} {edition : Edition} {f : Formatter}
  {path : Path}

/-- A turn in place changes its file alone. -/
theorem differsAt_formatFile (f : Formatter) (h : NamesNoLink host path) :
    DiffersAt (host.LeadsTo path) host (formatFile true host f path).host := by
  rcases host_formatFile_cases host f h.anchored h.linkFree with hkept |
    ⟨octets, place, file, -, hstat, hset⟩
  · rw [hkept]
    exact .refl _ _
  · rw [hset]
    exact .set (Host.node?_of_stat hstat) ⟨_, hstat⟩ octets

/-- The turns behind one that agrees may agree too, without changing its file. -/
theorem TurnAgrees.cons (hagrees : TurnAgrees host host' f path) {later : Location → Prop}
    {printed inPlace : List Turn} {shown : String} {left : Host}
    (hrest : RunsAgree printed inPlace shown left)
    (hleft : DiffersAt later (formatFile true host' f path).host left)
    (hapart : ∀ place, later place → ¬ host'.LeadsTo path place) :
    RunsAgree (⟨path, host, f⟩ :: printed) (⟨path, host', f⟩ :: inPlace)
      ((formatFile false host f path).shown.printed ++ shown) left := by
  rcases hagrees.changes with ⟨hunformatted, hprinted, -⟩ |
    ⟨place, file, hformatted, hstat, hreadable, hhost⟩
  · rw [hprinted, String.empty_append]
    exact hrest.cons_kept hagrees.ends rfl hunformatted
  · refine hrest.cons_written hagrees.ends rfl hformatted ?_
    obtain ⟨hthere, hholds⟩ := holds_of_set hstat hreadable
      (formatFile false host f path).shown.printed
    rw [← hhost] at hthere hholds
    unfold Holds
    rw [hleft.readOctets_eq]
    · exact hholds
    · rintro other ⟨node, hother⟩ hlater
      obtain ⟨_, hself⟩ := hthere
      rw [hother] at hself
      cases hself
      exact hapart _ hlater ⟨_, hstat⟩

/-- The places of the files. -/
def placesOf (host : Host) (files : List Path) (place : Location) : Prop :=
  ∃ path ∈ files, host.LeadsTo path place

/-- The induction is on the files. What the files in front have changed is nothing that is read for
the others, so their turns find all they read as it was in the beginning. -/
theorem onFiles_in_place {files : List Path} (h : DiffersAt changed host host')
    (hf : IsCurrent (· = host) edition f) (hnames : ∀ path ∈ files, NamesNoLink host path)
    (hkept : ∀ path ∈ files, ∀ place, Reads host edition.settings path place → ¬ changed place)
    (hapart : IsApart host edition.settings files)
    (hwrites : ∀ turn ∈ turns (formatFile true) host' f files, turn.WritesDone) :
    (onFiles (formatFile true) host' f files).success =
        (onFiles (formatFile false) host f files).success ∧
      RunsAgree (turns (formatFile false) host f files) (turns (formatFile true) host' f files)
        (onFiles (formatFile false) host f files).shown.printed
        (onFiles (formatFile true) host' f files).host ∧
      DiffersAt (placesOf host files) host' (onFiles (formatFile true) host' f files).host := by
  induction files generalizing host' f changed with
  | nil => exact ⟨rfl, .nil _, .refl _ _⟩
  | cons path rest ih =>
    obtain ⟨hname, hnamesRest⟩ := List.forall_mem_cons.1 hnames
    obtain ⟨hkeptPath, hkeptRest⟩ := List.forall_mem_cons.1 hkept
    obtain ⟨hapartPath, hapartRest⟩ := List.pairwise_cons.1 hapart
    have hname' : NamesNoLink host' path :=
      ⟨hname.anchored, (h.linkAt?_eq path).trans hname.linkFree⟩
    have hwritesPath : Turn.WritesDone ⟨path, host', f⟩ := by
      apply hwrites
      rw [turns]
      exact List.mem_cons_self
    have hagrees := turnAgrees h hf hkeptPath hname' hwritesPath
    have hfirst := (differsAt_formatFile f hname').mono fun place => (h.leadsTo_iff path place).1
    have hplaces : ∀ place, host.LeadsTo path place → placesOf host (path :: rest) place :=
      fun place hleads => ⟨path, List.mem_cons_self, hleads⟩
    rw [onFiles_cons, onFiles_cons]
    cases hsuccess : (formatFile false host f path).success with
    | error fault =>
      have hsuccess' := hagrees.success.trans hsuccess
      rw [turns_cons_of_error hsuccess, turns_cons_of_error hsuccess', Work.andThen_error hsuccess,
        Work.andThen_error hsuccess']
      refine ⟨hagrees.success, ?_, hfirst.mono hplaces⟩
      have hall := hagrees.cons (.nil _) (.refl (fun _ => False) _) fun _ hnone => hnone.elim
      rwa [String.append_empty] at hall
    | ok success =>
      have hsuccess' := hagrees.success.trans hsuccess
      have hbefore : DiffersAt (fun place => changed place ∨ host.LeadsTo path place) host
          (formatFile true host' f path).host :=
        (h.mono fun _ => Or.inl).trans (hfirst.mono fun _ => Or.inr)
      have hleaves : IsCurrent (· = host) edition (formatFile false host f path).formatter :=
        hf.leaves rfl (formatFile_leaves false host f path)
      rw [turns_cons_of_ok hsuccess'] at hwrites
      rw [turns_cons_of_ok hsuccess, turns_cons_of_ok hsuccess', Work.andThen_ok hsuccess,
        Work.andThen_ok hsuccess', host_formatFile_printed]
      rw [hagrees.formatter] at hwrites ⊢
      have hkeptLater : ∀ later ∈ rest, ∀ place, Reads host edition.settings later place →
          ¬ (changed place ∨ host.LeadsTo path place) := by
        intro later hlater place hreads hchanged
        rcases hchanged with hchanged | hleads
        · exact hkeptRest later hlater place hreads hchanged
        · exact hapartPath later hlater place hreads hleads
      obtain ⟨hothers, hrest, hleft⟩ := ih hbefore hleaves hnamesRest hkeptLater hapartRest
        fun turn hturn => hwrites turn (List.mem_cons_of_mem _ hturn)
      refine ⟨?_, ?_, ?_⟩
      · simp only [Work.behind, hothers]
      · apply hagrees.cons hrest hleft
        rintro place ⟨later, hlater, hleads⟩ hpath
        exact hapartPath later hlater place (.document hleads) ((h.leadsTo_iff path place).1 hpath)
      · apply (hfirst.mono hplaces).trans
        apply hleft.mono
        rintro place ⟨later, hlater, hleads⟩
        exact ⟨later, List.mem_cons_of_mem _ hlater, hleads⟩

end Runs

/-! Runs of the command. -/

/-- The formatter with which a command begins to format its files, and the files, resolved. -/
def formatting? (host : Host) (given tidy : Option Path) (stop : Bool) (files : List Path) :
    Option (Formatter × List Path) :=
  match workspaceOf host given with
  | .error _ => none
  | .ok workspace =>
    match Settings.load host workspace, files.mapM host.resolve with
    | .ok settings, .ok resolved =>
      some (newFormatter (withSwitches tidy stop settings) workspace, resolved)
    | _, _ => none

/-- The turns that files come to in a command that formats them. -/
def formatTurns (host : Host) (given tidy : Option Path) (inPlace stop : Bool)
    (files : List Path) : List Turn :=
  match formatting? host given tidy stop files with
  | none => []
  | some (f, resolved) => turns (formatFile inPlace) host f resolved

/-- A command gets to its files alike in place and to be printed, or ends without printing. -/
theorem invoke_format_cases (host : Host) (commit : Version.Answer) (given tidy : Option Path)
    (stop : Bool) (files : List Path) :
    (∃ workspace settings resolved, files.mapM host.resolve = .ok resolved ∧
      formatting? host given tidy stop files =
        some (newFormatter (withSwitches tidy stop settings) workspace, resolved) ∧
      ∀ inPlace, invoke host commit (.format given tidy inPlace stop files) =
        finishWork (onFiles (formatFile inPlace) host
          (newFormatter (withSwitches tidy stop settings) workspace) resolved)) ∨
    formatting? host given tidy stop files = none ∧
      ∃ finish, finish.shown.printed = "" ∧
        ∀ inPlace, invoke host commit (.format given tidy inPlace stop files) = finish := by
  simp only [formatting?, invoke, inWorkspace]
  cases workspaceOf host given with
  | error fault => exact Or.inr ⟨rfl, breakOff host fault, rfl, fun _ => rfl⟩
  | ok workspace =>
    dsimp only
    cases hload : Settings.load host workspace with
    | error fault =>
      refine Or.inr ⟨rfl, refuseSettings host fault, printed_refuseSettings host fault, ?_⟩
      intro inPlace
      rw [runOnFiles, hload]
    | ok settings =>
      cases hresolve : files.mapM host.resolve with
      | error fault =>
        refine Or.inr ⟨rfl, breakOff host fault, rfl, ?_⟩
        intro inPlace
        rw [runOnFiles, hload, hresolve]
      | ok resolved =>
        exact Or.inl ⟨workspace, settings, resolved, rfl, rfl,
          fun inPlace => runOnFiles_eq hload hresolve _ _⟩

/-- Formatting files in place agrees with formatting them to be printed, if no file is read for one
behind it and no write fails: each file comes to the same end, the exit codes are the same, and what
is printed are the texts that the formatted files hold after the run in place, one after the other.
The paths have to be resolved to the end, so that no link is replaced by a file. -/
theorem format_in_place_agrees (host : Host) (commit : Version.Answer) (given tidy : Option Path)
    (stop : Bool) (files : List Path) (hlinks : ResolvesLinks host files)
    (hapart : ∀ f resolved, formatting? host given tidy stop files = some (f, resolved) →
      IsApart host f.settings resolved)
    (hwrites : ∀ turn ∈ formatTurns host given tidy true stop files, turn.WritesDone) :
    (invoke host commit (.format given tidy true stop files)).exit =
        (invoke host commit (.format given tidy false stop files)).exit ∧
      RunsAgree (formatTurns host given tidy false stop files)
        (formatTurns host given tidy true stop files)
        (invoke host commit (.format given tidy false stop files)).shown.printed
        (invoke host commit (.format given tidy true stop files)).host := by
  unfold formatTurns at hwrites ⊢
  rcases invoke_format_cases host commit given tidy stop files with
    ⟨workspace, settings, resolved, hresolve, hbegins, hruns⟩ | ⟨hnone, finish, hprinted, hsame⟩
  · rw [hbegins] at hwrites
    rw [hbegins, hruns, hruns]
    have hnames : ∀ path ∈ resolved, NamesNoLink host path := by
      intro path hpath
      obtain ⟨file, hfile, hresolved⟩ := mem_mapM hresolve hpath
      exact ⟨Host.anchor_resolve hresolved, hlinks file hfile path hresolved⟩
    have hnew := isCurrent_newFormatter (· = host) (withSwitches tidy stop settings) workspace
    obtain ⟨hsuccess, hagree, -⟩ := onFiles_in_place (.refl (fun _ => False) host) hnew hnames
      (fun _ _ _ _ => id) (hapart _ resolved hbegins) hwrites
    refine ⟨?_, hagree⟩
    simp only [finishWork, hsuccess]
  · rw [hnone, hsame, hsame, hprinted]
    exact ⟨rfl, .nil _⟩

/-! A page, and a file that is not there. -/

/-- To launch an engine in the root, nothing but its file is opened. -/
theorem IsEngine.eq_of_launchOpens {host : Host} {name : String} {engine : Engine}
    (h : IsEngine host name engine) {place : Location}
    (hopens : host.LaunchOpens (Path.ofParts [name]).text place) : place = [name] := by
  obtain ⟨octets, hprogram⟩ := h.program
  obtain ⟨_, hstat⟩ := h.stat
  obtain ⟨before, path, after, htried, -, hopened⟩ := hopens
  rw [Host.tried, if_pos (contains_slash name)] at htried
  obtain ⟨rfl, hrest⟩ := List.append_eq_singleton_iff.1 htried.symm |>.resolve_right (by simp)
  cases hrest
  cases hopened with
  | program hwalk =>
    rw [Host.walk_of_stat hstat] at hwalk
    cases hwalk
    rfl
  | interpreter hopen hengine =>
    rw [hprogram] at hopen
    cases hopen
    cases hengine

/-- Where no override file counts, a document and an engine in the root are all that is read. -/
theorem IsEngine.leadsTo_of_reads {host : Host} {name : String} {engine : Engine}
    (h : IsEngine host name engine) {settings : Settings}
    (hexecutable : settings.executable = some (Path.ofParts [name]).text) {document resolved : Path}
    (hresolve : host.resolve document = .ok resolved)
    (hnone : Override.find host resolved.parent settings.overrideName = .ok none)
    {place : Location} (hreads : Reads host settings document place) :
    host.LeadsTo document place ∨ place = [name] := by
  cases hreads with
  | document hleads => exact Or.inl hleads
  | override hsearch hother hfind hleads =>
    cases hresolve.symm.trans hother
    cases hnone.symm.trans hfind
  | engine hfound hopens =>
    rw [hexecutable, h.lookup] at hfound
    cases hfound
    exact Or.inr (h.eq_of_launchOpens hopens)

namespace strayHost

/-- The page, and a name that nothing has. -/
def pages : List Path := [.ofParts ["a.html"], .ofParts ["c.html"]]

theorem stat_page : strayHost.stat (Path.ofParts ["a.html"]).text =
    .ok (["a.html"], .file page) := by
  have hplain : IsPlainName "a.html" := by decide
  exact hplain.stat_eq rfl nofun

theorem stat_absent : strayHost.stat (Path.ofParts ["c.html"]).text =
    .error (.refused ⟨.noEntry, [(Path.ofParts ["c.html"]).text]⟩) := by
  have hplain : IsPlainName "c.html" := by decide
  have hother : ∀ target, strayHost.tree.node? ["c.html"] ≠ some (.link target) := nofun
  rw [Host.stat, Host.reach, hplain.hasNul_eq, hplain.walk_eq strayHost (Or.inr hother)]
  rfl

theorem complete_pages : ∀ path ∈ pages, path.anchor ≠ .none ∧
    strayHost.tree.resolve strayHost.directory path.text = .complete path ∧
      strayHost.resolve path = .ok path := by
  have hpage : IsPlainName "a.html" := by decide
  have habsent : IsPlainName "c.html" := by decide
  have hother : ∀ target, strayHost.tree.node? ["a.html"] ≠ some (.link target) := nofun
  have hnone : ∀ target, strayHost.tree.node? ["c.html"] ≠ some (.link target) := nofun
  simp only [pages, List.forall_mem_cons]
  exact ⟨⟨Anchor.noConfusion, hpage.complete hother, hpage.resolve_eq hother⟩,
    ⟨Anchor.noConfusion, habsent.complete hnone, habsent.resolve_eq hnone⟩, nofun⟩

theorem formatting_pages : formatting? strayHost (some (.ofParts [])) (some (.ofParts ["tidy"]))
    false pages = some (formatter, pages) := by
  obtain ⟨hpage, habsent, -⟩ := List.forall_mem_cons.1 complete_pages |>.imp_right
    List.forall_mem_cons.1
  have hresolve : pages.mapM strayHost.resolve = .ok pages := by
    rw [pages, List.mapM_cons, hpage.2.2, List.mapM_cons, habsent.2.2, List.mapM_nil]
    rfl
  simp only [formatting?, workspaceOf, Host.resolve_root, isBare.load, hresolve]
  rfl

theorem isApart_pages : IsApart strayHost formatter.settings pages := by
  unfold IsApart pages
  simp only [List.pairwise_cons, List.mem_singleton, forall_eq]
  refine ⟨?_, by simp⟩
  rintro place hreads ⟨node, hpage⟩
  rw [stat_page] at hpage
  cases hpage
  have hresolve := (complete_pages (.ofParts ["c.html"]) (by decide)).2.2
  have hexecutable : formatter.settings.executable = some (Path.ofParts ["tidy"]).text := by decide
  rcases isEngine.leadsTo_of_reads hexecutable hresolve isBare.find hreads with
    ⟨node, hleads⟩ | hengine
  · rw [stat_absent] at hleads
    cases hleads
  · exact absurd hengine (by decide)

theorem mayReplace_page : strayHost.MayReplace (.ofParts ["a.html"]) :=
  ⟨fun _ => rfl, by decide, by rfl⟩

/-- What the turn of the page leaves does not make the other name one of something. -/
theorem writesDone_pages : ∀ turn ∈ turns (formatFile true) strayHost formatter pages,
    turn.WritesDone := by
  have hplain : IsPlainName "a.html" := by decide
  have hpage : Turn.WritesDone ⟨.ofParts ["a.html"], strayHost, formatter⟩ := by
    intro job execution hbegins happlied
    dsimp only
    rw [hplain.overwriteFile_eq rfl stat_page mayReplace_page]
  have hname : NamesNoLink strayHost (.ofParts ["a.html"]) :=
    ⟨Anchor.noConfusion, hplain.linkAt?_eq_none nofun⟩
  have hkept := (differsAt_formatFile formatter hname).stat_error stat_absent
  have habsent : ∀ f, Turn.WritesDone ⟨.ofParts ["c.html"],
      (formatFile true strayHost formatter (.ofParts ["a.html"])).host, f⟩ := by
    intro f job execution hbegins
    obtain ⟨place, file, hstat⟩ := stat_of_running hbegins
    dsimp only at hstat
    rw [hkept] at hstat
    cases hstat
  intro turn hturn
  simp only [pages, turns] at hturn
  rcases List.mem_cons.1 hturn with rfl | hrest
  · exact hpage
  · cases hsuccess : (formatFile true strayHost formatter (.ofParts ["a.html"])).success with
    | error fault =>
      rw [hsuccess] at hrest
      cases hrest
    | ok success =>
      rw [hsuccess] at hrest
      rcases List.mem_cons.1 hrest with rfl | hnone
      · exact habsent _
      · split at hnone <;> cases hnone

end strayHost

/-- The page and the missing file come to the same, in place and to be printed. -/
theorem format_in_place_agrees_page :
    ResolvesLinks strayHost strayHost.pages ∧
    IsApart strayHost strayHost.formatter.settings strayHost.pages ∧
    (invoke strayHost .missing (.format (some (.ofParts [])) (some (.ofParts ["tidy"])) true false
        strayHost.pages)).exit =
      (invoke strayHost .missing (.format (some (.ofParts [])) (some (.ofParts ["tidy"])) false
        false strayHost.pages)).exit ∧
    RunsAgree
      (formatTurns strayHost (some (.ofParts [])) (some (.ofParts ["tidy"])) false false
        strayHost.pages)
      (formatTurns strayHost (some (.ofParts [])) (some (.ofParts ["tidy"])) true false
        strayHost.pages)
      (invoke strayHost .missing (.format (some (.ofParts [])) (some (.ofParts ["tidy"])) false
        false strayHost.pages)).shown.printed
      (invoke strayHost .missing (.format (some (.ofParts [])) (some (.ofParts ["tidy"])) true
        false strayHost.pages)).host := by
  have hlinks : ResolvesLinks strayHost strayHost.pages := by
    apply ResolvesLinks.of_complete
    intro path hpath
    obtain ⟨hanchor, hcomplete, -⟩ := strayHost.complete_pages path hpath
    exact ⟨hanchor, _, hcomplete⟩
  have hapart : ∀ f resolved, formatting? strayHost (some (.ofParts []))
      (some (.ofParts ["tidy"])) false strayHost.pages = some (f, resolved) →
        IsApart strayHost f.settings resolved := by
    intro f resolved hbegins
    rw [strayHost.formatting_pages] at hbegins
    cases hbegins
    exact strayHost.isApart_pages
  have hwrites : ∀ turn ∈ formatTurns strayHost (some (.ofParts [])) (some (.ofParts ["tidy"]))
      true false strayHost.pages, turn.WritesDone := by
    rw [formatTurns, strayHost.formatting_pages]
    exact strayHost.writesDone_pages
  exact ⟨hlinks, strayHost.isApart_pages, format_in_place_agrees strayHost .missing _ _ false
    strayHost.pages hlinks hapart hwrites⟩

/-- The text of a file that is a page to an engine, and options to those who look for them. -/
def optionsText : String := "\x7b\"a\":[]\x7d"

/-- A file with this text. -/
def optionsFile : File := ⟨Text.Utf8.encode optionsText.toList, 0o644, none⟩

/-- A target behind as many links as a walk may follow with the one that has the target. -/
def farTarget : String := String.intercalate "/" (List.replicate 39 "d" ++ ["x"])

/-- A host where the name of an override file leads to a link by too many links to follow it. -/
def farHost : Host where
  tree := ⟨[(["tidy"], .file ⟨[], 0o755, some fun _ input => .ends ⟨input, [], 0⟩⟩),
    (["s"], .directory),
    (["s", "t.html"], .file optionsFile),
    (["b.html"], .file page), (["x"], .link "s/t.html"), (["loop"], .link "loop"),
    (["d"], .link "."), ([".htmlTidy"], .link farTarget)]⟩
  directory := []
  searchPath := ""

/-- The host when the link is a file. -/
def nearHost : Host :=
  farHost.withTree (farHost.tree.set ["x"] (.file optionsFile))

namespace farHost

theorem isEngine : IsEngine farHost "tidy" fun _ input => .ends ⟨input, [], 0⟩ :=
  ⟨by decide, _, rfl⟩

theorem node_near {place : Location} (h : place ≠ ["x"]) :
    nearHost.tree.node? place = farHost.tree.node? place := FileTree.node?_set_ne _ h

/-- The name of the override file leads on to `x`, when no further link may be followed. -/
theorem walk_override {host : Host} (hd : host.tree.node? ["d"] = some (.link "."))
    (hoverride : host.tree.node? [".htmlTidy"] = some (.link farTarget)) :
    host.walk .target (Path.ofParts [".htmlTidy"]).text =
      host.tree.walkFrom .target 0 [] ["x"] := by
  have hplain : IsPlainName ".htmlTidy" := by decide
  have hstart : FileTree.walkStart [] farTarget = [] := by decide +kernel
  have hsteps : FileTree.steps farTarget = List.replicate 39 "d" ++ ["x"] := by decide +kernel
  have hshort : FileTree.isNameTooLong ".htmlTidy" = false := by decide
  have hname : IsPlainName "d" := by decide
  have hroot : ((host.tree.node? []).any Node.isDirectory) = true := rfl
  have hfar := FileTree.walkFrom_through hname hd 39 0 ["x"]
  rw [Host.walk, FileTree.walk_text (by exact Anchor.noConfusion), hplain.isPathTooLong_eq,
    hplain.steps_eq, FileTree.linkLimit, FileTree.walkFrom]
  simp only [hroot, hshort, hoverride, hstart, hsteps, List.append_nil, List.nil_append]
  simpa using hfar

theorem find_far : Override.find farHost (.ofParts []) ".htmlTidy" = .ok none := by
  have hplain : IsPlainName ".htmlTidy" := by decide
  have hname : FileTree.isNameTooLong "x" = false := by decide
  have hwalk : farHost.walk .target (Path.ofParts [".htmlTidy"]).text = .error .tooManyLinks := by
    rw [walk_override rfl rfl]
    simp [FileTree.walkFrom, FileTree.node?, Node.isDirectory, farHost, hname, List.lookup_cons]
  have habsent : farHost.isFile? (.ofParts [".htmlTidy"]) = .ok false := by
    simp only [Host.isFile?, Host.look, Host.stat, Host.reach, hplain.hasNul_eq, hwalk]
    rfl
  exact find_root habsent

theorem stat_near : nearHost.stat (Path.ofParts [".htmlTidy"]).text =
    .ok (["x"], .file optionsFile) := by
  have hplain : IsPlainName ".htmlTidy" := by decide
  have hname : FileTree.isNameTooLong "x" = false := by decide
  have hself : nearHost.tree.node? ["x"] = some (.file optionsFile) :=
    FileTree.node?_set_self _ (by decide)
  refine (Host.stat_eq_ok_iff ..).2 ⟨by decide, ?_⟩
  rw [walk_override (by rfl) (by rfl)]
  have hother : ∀ target, nearHost.tree.node? ([] ++ ["x"]) ≠ some (.link target) := by
    rw [List.nil_append, hself]
    exact nofun
  rw [FileTree.walkFrom_last 0 rfl (by decide) (by decide) (by simp [hname]) (Or.inr hother),
    List.nil_append, FileTree.foundAt_of_some hself]

theorem find_near : Override.find nearHost (.ofParts []) ".htmlTidy" =
    .ok (some (.ofParts [".htmlTidy"])) := by
  have hthere : nearHost.isFile? (.ofParts [".htmlTidy"]) = .ok true := by
    rw [Host.isFile?, Host.look, stat_near]
    rfl
  exact find_root hthere

theorem readText_options {host : Host} {path : Path} {place : Location}
    (hstat : host.stat path.text = .ok (place, .file optionsFile)) :
    host.readText path = .ok optionsText := by
  have hreadable : optionsFile.isReadable = true := by
    simp [optionsFile, File.isReadable, File.ownerBit]
  have hoctets : optionsFile.octets = Text.Utf8.encode optionsText.toList := rfl
  have hsame : Text.normalizeNewlines optionsText.toList = optionsText.toList := by decide
  simp only [Host.readText, Host.readOctets, hstat, hreadable, if_true, bind, Except.bind,
    Host.decodeText, hoctets, Text.Utf8.decode_encode, hsame, String.ofList_toList]

theorem read_optionsText : Json.read optionsText = .ok (.table [("a", .list [])]) := by
  have hname : Json.readString "\"a\":[]\x7d".toList [] "a\":[]\x7d".toList =
      .ok (['a'], ":[]\x7d".toList) := by
    simp [Json.readString]
  have hvalue : Json.readValue 18 Json.depthLimit optionsText.toList =
      .ok (.table [("a", .list [])], []) := by
    have hdepth : Json.depthLimit = (Json.depthLimit - 2) + 1 + 1 := by decide
    rw [hdepth]
    show (Json.readString "\"a\":[]\x7d".toList [] "a\":[]\x7d".toList >>= _) = _
    rw [hname]
    rfl
  show (Json.readValue 18 Json.depthLimit optionsText.toList >>= _).mapError _ = _
  rw [hvalue]
  rfl

/-- The link leads to a file in a directory. -/
theorem walk_x : farHost.walk .target (Path.ofParts ["x"]).text =
    .ok (.node ["s", "t.html"] (.file optionsFile)) := by
  have hplain : IsPlainName "x" := by decide
  have hsteps : FileTree.steps "s/t.html" = ["s", "t.html"] := by decide
  have hstart : FileTree.walkStart [] "s/t.html" = [] := by decide
  have hname : FileTree.isNameTooLong "x" = false := by decide
  have hdirectory : FileTree.isNameTooLong "s" = false := by decide
  have hpage : FileTree.isNameTooLong "t.html" = false := by decide
  rw [Host.walk, FileTree.walk_text (by exact Anchor.noConfusion), hplain.isPathTooLong_eq,
    hplain.steps_eq]
  simp [FileTree.walkFrom, FileTree.node?, Node.isDirectory, farHost, hname, hpage, hsteps,
    hstart, hdirectory, FileTree.linkLimit, List.lookup_cons]

theorem stat_x : farHost.stat (Path.ofParts ["x"]).text =
    .ok (["s", "t.html"], .file optionsFile) :=
  (Host.stat_eq_ok_iff ..).2 ⟨by decide, walk_x⟩

/-- A path of a name in the directory leads to what lies there. -/
theorem walk_below {name : String} (h : IsPlainName name)
    (hlong : FileTree.isPathTooLong (Path.ofParts ["s", name]).text = false)
    (hother : ∀ target, farHost.tree.node? ["s", name] ≠ some (.link target)) (purpose : Purpose) :
    farHost.walk purpose (Path.ofParts ["s", name]).text =
      .ok (farHost.tree.foundAt ["s", name]) := by
  have hnames : ∀ part ∈ ["s", name], IsPlainName part :=
    List.forall_mem_cons.2 ⟨by decide, List.forall_mem_singleton.2 h⟩
  refine Host.walk_names hnames (List.cons_ne_nil _ _) (fun n hn => ?_) hlong hother
  have htwo : n < 2 := hn
  obtain rfl | rfl : n = 0 ∨ n = 1 := by omega
  all_goals rfl

theorem resolve_x : farHost.resolve (.ofParts ["x"]) = .ok (.ofParts ["s", "t.html"]) := by
  have hplain : IsPlainName "x" := by decide
  have hdirectory : IsPlainName "s" := by decide
  have hwalk := walk_below (by decide : IsPlainName "t.html") (by decide) nofun
  have hlink : farHost.tree.linkAt? [] ⟨.root, ["x"]⟩ = some "s/t.html" :=
    hplain.linkAt?_eq_some farHost rfl
  have hnone : farHost.tree.linkAt? [] ⟨.root, ["s"]⟩ = none :=
    hdirectory.linkAt?_eq_none nofun
  have hend : farHost.tree.linkAt? [] ⟨.root, ["s", "t.html"]⟩ = none := by
    have hfound : farHost.tree.walk .link [] (Path.text ⟨.root, ["s", "t.html"]⟩) =
        .ok (.node ["s", "t.html"] (.file optionsFile)) := hwalk .link
    rw [FileTree.linkAt?, hfound]
  have hbegin : FileTree.startOf ⟨.none, []⟩ (Path.ofParts ["x"]).text = ⟨.root, []⟩ := by decide
  have hagain : FileTree.startOf ⟨.root, []⟩ "s/t.html" = ⟨.root, []⟩ := by decide
  have hsplit : Path.split "s/t.html" = ["s", "t.html"] := by decide
  have hcomplete : farHost.tree.resolve [] (Path.ofParts ["x"]).text =
      .complete (.ofParts ["s", "t.html"]) := by
    simp [FileTree.resolve, hbegin, hplain.split_eq, FileTree.resolveFrom, Path.child, hlink,
      hagain, hsplit, hnone, hend]
    rfl
  have habsolute : farHost.absolute (Path.ofParts ["s", "t.html"]) =
      .ok (.ofParts ["s", "t.html"]) := by rfl
  have hhere : farHost.directory = [] := rfl
  simp only [Host.resolve, hplain.hasNul_eq, hhere, hcomplete, Host.absoluteOf, habsolute,
    bind, Except.bind, hwalk, Bool.false_eq_true, if_false]

theorem find_below : Override.find farHost (.ofParts ["s"]) ".htmlTidy" = .ok none := by
  have hplain : IsPlainName "s" := by decide
  have hresolve : farHost.resolve (.ofParts ["s"]) = .ok (.ofParts ["s"]) := hplain.resolve_eq nofun
  have hupward : (Path.ofParts ["s"]).upward = [.ofParts ["s"], .ofParts []] := by decide
  have habove : (Path.ofParts []).upward = [.ofParts []] := by decide
  have hcandidate : (Path.ofParts ["s"]).join (Path.ofText ".htmlTidy") =
      .ofParts ["s", ".htmlTidy"] := by decide
  have habsent : farHost.isFile? (.ofParts ["s", ".htmlTidy"]) = .ok false := by
    have hnul : Host.hasNul (Path.ofParts ["s", ".htmlTidy"]).text = false := by decide
    have hwalk := walk_below (by decide : IsPlainName ".htmlTidy") (by decide) nofun .target
    simp only [Host.isFile?, Host.look, Host.stat, Host.reach, hnul, hwalk]
    rfl
  have hroot := find_far
  simp only [Override.find, farHost.resolve_root, habove, bind, Except.bind] at hroot
  simp only [Override.find, hresolve, hupward, Override.findIn, hcandidate, habsent, bind,
    Except.bind]
  exact hroot

/-- The formatter of a run with this engine. -/
def formatter : Formatter :=
  newFormatter (withSwitches (some (.ofParts ["tidy"])) false {}) (.ofParts [])

/-- What a request goes by that has launched the engine on a text. -/
def jobOn (text : String) : Job :=
  ⟨text, formatter.settings, [], ⟨"/tidy", .ends ⟨Text.Utf8.encode text.toList, [], 0⟩⟩⟩

theorem begins {document : Document} {path resolved : Path} {text : String}
    (hpath : document.path? = some path) (hread : document.text farHost = .ok text)
    (hempty : text.isEmpty = false)
    (hderived : DerivedOptions.derive text .empty formatter.settings = .ok .empty)
    (hresolve : farHost.resolve path = .ok resolved)
    (hnone : Override.find farHost resolved.parent ".htmlTidy" = .ok none) :
    (formatter.beginRequest farHost document).value.1 = .running (jobOn text) := by
  have hfound : (formatter.findEngine farHost).value.1 = ⟨some "/tidy", []⟩ :=
    isEngine.findEngine (by decide)
  have hoptions : (formatter.resolver.optionsFor farHost document.path?).value.1 =
      .ok ⟨.empty, none, []⟩ := by
    rw [hpath]
    exact optionsFor_of_find hresolve hnone
  have harguments : (OptionMap.empty.mergeOne .empty).withFixed.arguments =
      .ok ["--tidy-mark", "no", "--force-output", "yes", "--quiet", "no"] := rfl
  exact isEngine.begins hfound hread hempty hoptions hderived harguments (by decide) (by decide)

theorem applied {text : String}
    (hsome : Text.Utf8.decodeLossy (Text.Utf8.encode text.toList) = text.toList)
    (hempty : text ≠ "") : applied? (jobOn text) = some ⟨text, "", some 0⟩ := by
  have happly : MayApply (jobOn text).settings ⟨Text.Utf8.encode text.toList, [], 0⟩ := by
    refine ⟨Or.inl rfl, ?_⟩
    rw [hsome]
    simpa using hempty
  have hrun : Execution.ofRun ⟨Text.Utf8.encode text.toList, [], 0⟩ = ⟨text, "", some 0⟩ := by
    have hnothing : Text.Utf8.decodeLossy [] = [] := by decide +kernel
    simp only [Execution.ofRun, hsome, hnothing, String.ofList_toList, String.ofList_nil]
  rw [applied?_eq_some rfl happly, hrun]

theorem lossless {text : String} (h : text = optionsText ∨ text = "<p>") :
    Text.Utf8.decodeLossy (Text.Utf8.encode text.toList) = text.toList := by
  rcases h with rfl | rfl <;> decide +kernel

theorem endsWell {path resolved : Path} {text : String} (htext : text = optionsText ∨ text = "<p>")
    (hread : farHost.readText path = .ok text) (hresolve : farHost.resolve path = .ok resolved)
    (hnone : Override.find farHost resolved.parent ".htmlTidy" = .ok none) :
    EndsWell farHost formatter path := by
  have hempty : text.isEmpty = false ∧ text ≠ "" ∧
      DerivedOptions.derive text .empty formatter.settings = .ok .empty := by
    rcases htext with rfl | rfl <;> exact ⟨by decide, by decide, rfl⟩
  have hbegins : (formatter.beginRequest farHost (.buffer text (some path) false)).value.1 =
      .running (jobOn text) := begins rfl rfl hempty.1 hempty.2.2 hresolve hnone
  have hset : ((Document.buffer text (some path) false).setText farHost text).1 = .ok ⟨⟩ := rfl
  have hfinish := finishRequest_applied (applied (lossless htext) hempty.2.1) hset
  refine ⟨text, ⟨.formatted, some ⟨text, "", some 0⟩,
    appliedMessages (jobOn text) ⟨text, "", some 0⟩⟩, hread, ?_, Or.inl rfl⟩
  rw [value_format_beginRequest, hbegins, resultOf, hfinish]

theorem resolve_page : farHost.resolve (.ofParts ["b.html"]) = .ok (.ofParts ["b.html"]) :=
  IsPlainName.resolve_eq (by decide) nofun

theorem readText_page : farHost.readText (.ofParts ["b.html"]) = .ok "<p>" := by
  have hplain : IsPlainName "b.html" := by decide
  have hnode : farHost.tree.node? ["b.html"] = some (.file page) := rfl
  exact CommandLine.readText_page (hplain.stat_eq hnode nofun)

/-- Formatting the link in place makes it a file. -/
theorem host_formatFile_x :
    (formatFile true farHost formatter (.ofParts ["x"])).host = nearHost := by
  have hplain : IsPlainName "x" := by decide
  have hmay : farHost.MayReplace (.ofParts ["x"]) := ⟨fun _ => rfl, by decide, by rfl⟩
  have hbegins : (formatter.beginRequest farHost (.file (.ofParts ["x"]))).value.1 =
      .running (jobOn optionsText) :=
    begins rfl (readText_options stat_x) (by decide) rfl resolve_x find_below
  have hwrite := hplain.overwriteFile_eq rfl stat_x hmay (Text.Utf8.encode optionsText.toList)
  have hset : ((Document.file (.ofParts ["x"])).setText farHost optionsText).1 = .ok ⟨⟩ := by
    simp only [Document.setText, hwrite]
  have hfinish := finishRequest_applied (applied (lossless (Or.inl rfl)) (by decide)) hset
  have hthere : farHost.exists? (.ofParts ["x"]) = .ok true :=
    exists?_of_readText (readText_options stat_x)
  simp only [formatFile, ifPresent, hthere, if_true, host_formatDocument]
  rw [value_format_beginRequest, hbegins, resultOf, hfinish]
  simp only [Document.setText, hwrite]
  rfl

theorem optionsFor_page {f : Formatter} (h : Leaves farHost formatter (some (.ofParts ["x"])) f) :
    (f.resolver.optionsFor nearHost (some (.ofParts ["b.html"]))).value.1 =
      .ok ⟨.ofPairs [("a", .list [])], some (.ofParts [".htmlTidy"]), []⟩ := by
  have hresolve : nearHost.resolve (.ofParts ["b.html"]) = .ok (.ofParts ["b.html"]) := by
    apply IsPlainName.resolve_eq (by decide)
    rw [node_near (by decide)]
    exact nofun
  have hdirectory : f.resolver.directoryFor nearHost (some (.ofParts ["b.html"])) =
      .ok (some (.ofParts [])) := by
    simp only [Resolver.directoryFor, hresolve]
    rfl
  have hsettings : f.resolver.settings = formatter.settings := by
    cases h with
    | untouched => rfl
    | engine => rw [resolver_findEngine]; rfl
    | options => exact congrArg Edition.settings (Resolver.edition_optionsFor ..)
  have hkept : f.resolver.kept.lookup (some (.ofParts [])) = none := by
    cases h with
    | untouched => rfl
    | engine => rw [resolver_findEngine]; rfl
    | options =>
      have hbelow : formatter.resolver.directoryFor farHost (some (.ofParts ["x"])) =
          .ok (some (.ofParts ["s"])) := by
        simp only [Resolver.directoryFor, resolve_x]
        rfl
      rcases Resolver.optionsFor_returns hbelow (optionsFor_of_find resolve_x find_below) with
        ⟨-, hsame⟩ | ⟨-, -, hset⟩
      · exact congrArg (fun r : Resolver => r.kept.lookup _) hsame
      · refine (congrArg (fun r : Resolver => r.kept.lookup _) hset).trans ?_
        rfl
  have hfile : (Resolved.ofFile nearHost formatter.settings (.ofParts [".htmlTidy"])).value =
      .ok ⟨.ofPairs [("a", .list [])], some (.ofParts [".htmlTidy"]), []⟩ := by
    have hread := readText_options stat_near
    have hparse : Override.parse optionsText (some (Path.ofParts [".htmlTidy"]).text) =
        .ok (.ofPairs [("a", .list [])]) := by
      rw [Override.parse, read_optionsText]
    simp only [Resolved.ofFile, hread, bind, Except.bind, hparse]
    rfl
  have hfind : (Resolved.find nearHost formatter.settings (some (.ofParts []))).value =
      .ok ⟨.ofPairs [("a", .list [])], some (.ofParts [".htmlTidy"]), []⟩ := by
    have hnear : Override.find nearHost (.ofParts []) formatter.settings.overrideName =
        .ok (some (.ofParts [".htmlTidy"])) := find_near
    have hsearch : formatter.settings.fileSearch = true := rfl
    unfold Resolved.find
    rw [hsearch]
    simp only [hnear, hfile]
  rw [Resolver.value_optionsFor hdirectory, hkept, hsettings, hfind]

/-- The page takes the options of the file, with which no engine can be launched. -/
theorem success_formatFile_page {f : Formatter}
    (h : Leaves farHost formatter (some (.ofParts ["x"])) f) :
    (formatFile true nearHost f (.ofParts ["b.html"])).success = .ok false := by
  have hplain : IsPlainName "b.html" := by decide
  have hnode : nearHost.tree.node? ["b.html"] = some (.file page) := node_near (by decide)
  have hread : nearHost.readText (.ofParts ["b.html"]) = .ok "<p>" :=
    CommandLine.readText_page (hplain.stat_eq hnode nofun)
  have hdocument : (readDocument nearHost (.file (.ofParts ["b.html"]))).value =
      .ok (.ok "<p>") := by
    simp only [readDocument, Document.text, hread, Logged.value_pure]
  have hnew := isCurrent_newFormatter (fun host => host = farHost ∨ host = nearHost)
    (withSwitches (some (.ofParts ["tidy"])) false {}) (.ofParts [])
  have hcurrent := hnew.leaves (Or.inl rfl) h
  have hsettings : f.settings = formatter.settings := hcurrent.settings
  have hengine : (f.findEngine nearHost).value.1 = ⟨some "/tidy", []⟩ := by
    have hnear : IsEngine nearHost "tidy" fun _ input => .ends ⟨input, [], 0⟩ :=
      ⟨by decide, _, node_near (by decide)⟩
    obtain ⟨host, hmet, hlookup⟩ := hcurrent.looksUp (Or.inr rfl)
    have hwhole : (host.findEngine (some "/tidy")).value = ⟨some "/tidy", []⟩ := by
      rcases hmet with rfl | rfl
      · exact isEngine.lookup
      · exact hnear.lookup
    have hexecutable : (withSwitches (some (.ofParts ["tidy"])) false {}).executable =
        some "/tidy" := by decide
    simp only [hexecutable, hwhole] at hlookup
    rcases hlookup with hlookup | ⟨-, hlookup⟩ <;> exact hlookup
  have hoptions := optionsFor_page h
  have hderived : DerivedOptions.derive "<p>" (.ofPairs [("a", .list [])]) formatter.settings =
      .ok .empty := rfl
  have hlaunch : ∃ fault, (Runner.launch nearHost (some "/tidy")
      ((OptionMap.ofPairs [("a", .list [])]).mergeOne .empty) "<p>").value = .error fault ∧
      fault.isFormatting = true := ⟨.unsupported "a" (.list []), rfl, rfl⟩
  obtain ⟨fault, hfault, hformatting⟩ := hlaunch
  have hempty : "<p>".isEmpty = false := by decide
  have hpath : (Document.file (.ofParts ["b.html"])).path? = some (.ofParts ["b.html"]) := rfl
  have hbegins : (f.beginRequest nearHost (.file (.ofParts ["b.html"]))).value.1 =
      .settled (.failed [fault.message]) := by
    rw [(beginRequest_prepare nearHost f _).1, prepare, hdocument, hengine, hpath, hoptions,
      hsettings]
    simp only [prepareBy, hempty, Bool.false_eq_true, if_false, hderived, Prepared.format, hfault,
      settleFault, hformatting, if_true, Logged.value_bind, Logged.value_pure, Begun.ofSettled,
      List.append_nil, List.nil_append]
  have hthere := exists?_of_readText hread
  simp only [formatFile, ifPresent, hthere, if_true, success_formatDocument]
  rw [value_format_beginRequest, hbegins]
  rfl

theorem isApart : IsApart farHost formatter.settings [.ofParts ["x"], .ofParts ["b.html"]] := by
  have hplain : IsPlainName "b.html" := by decide
  have hpage : farHost.stat (Path.ofParts ["b.html"]).text = .ok (["b.html"], .file page) :=
    hplain.stat_eq rfl nofun
  unfold IsApart
  simp only [List.pairwise_cons, List.mem_singleton, forall_eq]
  refine ⟨?_, by simp⟩
  rintro place hreads ⟨node, hlink⟩
  rw [stat_x] at hlink
  cases hlink
  have hexecutable : formatter.settings.executable = some (Path.ofParts ["tidy"]).text := by decide
  rcases isEngine.leadsTo_of_reads hexecutable resolve_page find_far hreads with
    ⟨node, hleads⟩ | hengine
  · rw [hpage] at hleads
    exact absurd hleads (by simp)
  · exact absurd hengine (by decide)

theorem mapM_resolve : [⟨.root, ["loop", "..", "x"]⟩, .ofParts ["b.html"]].mapM farHost.resolve =
    .ok [.ofParts ["x"], .ofParts ["b.html"]] := by
  rw [List.mapM_cons, Host.resolve_behind_loop rfl rfl walk_x, List.mapM_cons, resolve_page,
    List.mapM_nil]
  rfl

end farHost

/-- No file is read for one behind it and none is an override file, and yet the run in place fails
where the one that prints does not: the link that it has made a file lets it reach options. -/
theorem far_options_reached :
    farHost.resolve ⟨.root, ["loop", "..", "x"]⟩ = .ok (.ofParts ["x"]) ∧
    IsApart farHost farHost.formatter.settings [.ofParts ["x"], .ofParts ["b.html"]] ∧
    Override.find farHost (.ofParts ["s"]) ".htmlTidy" = .ok none ∧
    Override.find farHost (.ofParts []) ".htmlTidy" = .ok none ∧
    (invoke farHost .missing (.format (some (.ofParts [])) (some (.ofParts ["tidy"])) false false
      [⟨.root, ["loop", "..", "x"]⟩, .ofParts ["b.html"]])).exit = .ok 0 ∧
    (invoke farHost .missing (.format (some (.ofParts [])) (some (.ofParts ["tidy"])) true false
      [⟨.root, ["loop", "..", "x"]⟩, .ofParts ["b.html"]])).exit ≠ .ok 0 := by
  have hworkspace : workspaceOf farHost (some (.ofParts [])) = .ok (.ofParts []) :=
    farHost.resolve_root
  have hload : Settings.load farHost (.ofParts []) = .ok {} := load_root rfl
  refine ⟨Host.resolve_behind_loop rfl rfl farHost.walk_x, farHost.isApart, farHost.find_below,
    farHost.find_far, ?_, ?_⟩
  · refine (printsEach_format ..).succeeds.2
      ⟨_, _, _, hworkspace, hload, farHost.mapM_resolve, ?_⟩
    intro path hpath
    rcases List.mem_cons.1 hpath with rfl | hpath
    · exact farHost.endsWell (Or.inl rfl) (farHost.readText_options farHost.stat_x)
        farHost.resolve_x farHost.find_below
    · obtain rfl := List.mem_singleton.1 hpath
      exact farHost.endsWell (Or.inr rfl) farHost.readText_page farHost.resolve_page
        farHost.find_far
  · have hleaves := formatFile_leaves true farHost farHost.formatter (.ofParts ["x"])
    have hpage := farHost.success_formatFile_page hleaves
    simp only [invoke, inWorkspace, hworkspace, runOnFiles_eq hload farHost.mapM_resolve]
    intro hsuccess
    rw [exit_finishWork_iff, success_onFiles_cons, success_onFiles_cons] at hsuccess
    have hboth := hsuccess.2.1
    change (formatFile true (formatFile true farHost farHost.formatter _).host _ _).success = _
      at hboth
    rw [farHost.host_formatFile_x] at hboth
    cases hpage.symm.trans hboth

end MarkupTidy.CommandLine
