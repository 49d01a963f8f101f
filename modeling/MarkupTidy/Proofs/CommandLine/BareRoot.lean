import MarkupTidy.Proofs.CommandLine.Turns
import MarkupTidy.Proofs.Executable
import MarkupTidy.Proofs.Files.AbsolutePaths
import MarkupTidy.Proofs.Formatter.Outcome

/-!
A workspace at the root that holds neither settings nor options. Its settings are the standard ones,
and a document in the root takes its options from them; an engine that lies in the root is found and
starts.
-/
namespace MarkupTidy.CommandLine

open Formatter

/-! The root as a workspace, and as the directory of documents. -/

section Root

variable {host : Host}

/-- Without a settings file in the root its settings are the standard ones. -/
theorem load_root (h : host.tree.node? [".tidyhtml"] = none) :
    Settings.load host (.ofParts []) = .ok {} := by
  have htext : (Settings.filePath (.ofParts [])).text = "/.tidyhtml/config.toml" := by decide
  have hnul : Host.hasNul "/.tidyhtml/config.toml" = false := by decide
  have hlong : FileTree.isPathTooLong "/.tidyhtml/config.toml" = false := by decide
  have hsteps : FileTree.steps "/.tidyhtml/config.toml" = [".tidyhtml", "config.toml"] := by decide
  have hname : FileTree.isNameTooLong ".tidyhtml" = false := by decide
  have hroot : ((host.tree.node? []).any Node.isDirectory) = true := rfl
  have hwalk : host.walk .target "/.tidyhtml/config.toml" = .error .noEntry := by
    rw [← htext, Host.walk, FileTree.walk_text (by exact Anchor.noConfusion), htext, hlong, hsteps,
      FileTree.walkFrom]
    simp [hroot, hname, h]
  have hthere : host.exists? (Settings.filePath (.ofParts [])) = .ok false := by
    simp only [Host.exists?, Host.look, Host.stat, Host.reach, htext, hnul, hwalk]
    rfl
  simp only [Settings.load, hthere]
  rfl

/-- An override file that counts for documents in the root is one there. -/
theorem find_root {there : Bool} (h : host.isFile? (.ofParts [".htmlTidy"]) = .ok there) :
    Override.find host (.ofParts []) ".htmlTidy" =
      .ok (if there then some (.ofParts [".htmlTidy"]) else none) := by
  have hcandidate : (Path.ofParts []).join (Path.ofText ".htmlTidy") = .ofParts [".htmlTidy"] := by
    decide
  have hupward : (Path.ofParts []).upward = [.ofParts []] := by decide
  simp only [Override.find, host.resolve_root, hupward, Override.findIn, hcandidate, h, bind,
    Except.bind]
  cases there <;> rfl

/-- Without an override file a new formatter takes the options of its settings. -/
theorem optionsFor_of_find {settings : Settings} {workspace document resolved : Path}
    (hdocument : host.resolve document = .ok resolved)
    (hnone : Override.find host resolved.parent settings.overrideName = .ok none) :
    ((newFormatter settings workspace).resolver.optionsFor host (some document)).value.1 =
      .ok ⟨settings.options, none, []⟩ := by
  have hdirectory : (newFormatter settings workspace).resolver.directoryFor host
      (some document) = .ok (some resolved.parent) := by
    simp only [Resolver.directoryFor, hdocument]
    rfl
  have hfind : (Resolved.find host settings (some resolved.parent)).value =
      .ok ⟨settings.options, none, []⟩ := by
    unfold Resolved.find
    cases settings.fileSearch with
    | false => rfl
    | true => simp only [hnone, Logged.value_pure, Resolved.ofSettings]
  have hsettings : (newFormatter settings workspace).resolver.settings = settings := rfl
  have hkept : (newFormatter settings workspace).resolver.kept = [] := rfl
  rw [Resolver.value_optionsFor hdirectory, hkept, hsettings]
  simp only [List.lookup_nil, hfind]

end Root

/-- The root holds no settings file and no override file. -/
structure IsBare (host : Host) : Prop where
  settings : host.tree.node? [".tidyhtml"] = none
  options : host.tree.node? [".htmlTidy"] = none

namespace IsBare

variable {host : Host}

theorem load (h : IsBare host) : Settings.load host (.ofParts []) = .ok {} := load_root h.settings

/-- No override file counts for a document in the root. -/
theorem find (h : IsBare host) : Override.find host (.ofParts []) ".htmlTidy" = .ok none := by
  have hplain : IsPlainName ".htmlTidy" := by decide
  have habsent : host.isFile? (.ofParts [".htmlTidy"]) = .ok false := by
    rw [Host.isFile?, hplain.look_eq_none h.options]
    rfl
  exact find_root habsent

/-- A new formatter takes the options of its settings for a document in the root. -/
theorem optionsFor (h : IsBare host) {settings : Settings}
    (hname : settings.overrideName = ".htmlTidy") {document : Path} {name : String}
    (hdocument : host.resolve document = .ok (.ofParts [name])) :
    ((newFormatter settings (.ofParts [])).resolver.optionsFor host (some document)).value.1 =
      .ok ⟨settings.options, none, []⟩ := by
  have hparent : (Path.ofParts [name]).parent = .ofParts [] := rfl
  apply optionsFor_of_find hdocument
  rw [hparent, hname, h.find]

end IsBare

/-- A file with an opening tag. -/
def page : File := ⟨[0x3C, 0x70, 0x3E], 0o644, none⟩

theorem readText_page {host : Host} {path : Path} {place : Location}
    (hstat : host.stat path.text = .ok (place, .file page)) : host.readText path = .ok "<p>" := by
  have hreadable : page.isReadable = true := by decide
  have hdecode : Host.decodeText page.octets = .ok "<p>" := by
    simp [page, Host.decodeText, Text.Utf8.decode, Text.Utf8.decodeAfter, Text.Utf8.nextHead,
      Text.Utf8.announced, Text.normalizeNewlines]
  simp only [Host.readText, Host.readOctets, hstat, hreadable, if_true, bind, Except.bind, hdecode]

/-- A program in the root that may be run, and that needs no interpreter. -/
structure IsEngine (host : Host) (name : String) (engine : Engine) : Prop where
  plain : IsPlainName name
  lies : ∃ octets, host.tree.node? [name] = some (.file ⟨octets, 0o755, some engine⟩)

namespace IsEngine

variable {host : Host} {name : String} {engine : Engine}

theorem stat (h : IsEngine host name engine) :
    ∃ octets, host.stat (Path.ofParts [name]).text =
      .ok ([name], .file ⟨octets, 0o755, some engine⟩) := by
  obtain ⟨octets, hnode⟩ := h.lies
  exact ⟨octets, h.plain.stat_eq hnode nofun⟩

/-- It is found by its path. -/
theorem lookup (h : IsEngine host name engine) :
    (host.findEngine (some (Path.ofParts [name]).text)).value =
      ⟨some (Path.ofParts [name]).text, []⟩ := by
  obtain ⟨octets, hstat⟩ := h.stat
  have hrunnable : host.isExecutable (Path.ofParts [name]).text = true := by
    have hbit : File.isRunnable ⟨octets, 0o755, some engine⟩ = true := by
      simp [File.isRunnable, File.ownerBit]
    simp [Host.isExecutable, Host.file?, hstat, hbit]
  have hnamed : (some (Path.ofParts [name]).text).filter (fun path => !path.isEmpty) =
      some (Path.ofParts [name]).text := by
    simp [Option.filter, IsPlainName.text_eq]
  simp only [Host.findEngine, hnamed, hrunnable, if_true, Logged.value_pure]

/-- A new formatter finds an engine that its settings name. -/
theorem findEngine (h : IsEngine host name engine) {settings : Settings}
    (hsettings : settings.executable = some (Path.ofParts [name]).text) :
    ((newFormatter settings (.ofParts [])).findEngine host).value.1 =
      ⟨some (Path.ofParts [name]).text, []⟩ := by
  have hlookup : (newFormatter settings (.ofParts [])).lookup = none := rfl
  have hunfold : (newFormatter settings (.ofParts [])).settings = settings := rfl
  simp only [Formatter.findEngine, hlookup, hunfold, Logged.value_bind, Logged.value_pure,
    hsettings, h.lookup]

theorem program (h : IsEngine host name engine) :
    ∃ octets, host.program (Path.ofParts [name]).text = .ok ⟨octets, 0o755, some engine⟩ := by
  obtain ⟨octets, hstat⟩ := h.stat
  have hbit : File.isRunnable ⟨octets, 0o755, some engine⟩ = true := by
    simp [File.isRunnable, File.ownerBit]
  exact ⟨octets, Host.program_of_stat hstat hbit⟩

theorem contains_slash (name : String) :
    (Path.ofParts [name]).text.toList.contains '/' = true := by
  simp [IsPlainName.text_eq]

/-- It starts on arguments that it can be passed. -/
theorem startWith (h : IsEngine host name engine) {arguments : List String} {text : String}
    (hnul : arguments.any Host.hasNul = false)
    (htakes : host.takes (Path.ofParts [name]).text arguments = true) :
    Runner.startWith host (Path.ofParts [name]).text arguments text =
      .ok ⟨(Path.ofParts [name]).text, engine arguments (Text.Utf8.encode text.toList)⟩ := by
  obtain ⟨octets, hprogram⟩ := h.program
  exact Host.startWith_of_engine (contains_slash name) h.plain.hasNul_eq hprogram rfl hnul htakes
    text

/-- A request begins by starting the engine, with the options that were found for its document. -/
theorem begins (h : IsEngine host name engine) {f : Formatter} {document : Document}
    {text : String} (hengine : (f.findEngine host).value.1 = ⟨some (Path.ofParts [name]).text, []⟩)
    (hread : document.text host = .ok text) (hempty : text.isEmpty = false)
    {options derived : OptionMap}
    (hoptions : (f.resolver.optionsFor host document.path?).value.1 = .ok ⟨options, none, []⟩)
    (hderived : DerivedOptions.derive text options f.settings = .ok derived)
    {arguments : List String}
    (harguments : (options.mergeOne derived).withFixed.arguments = .ok arguments)
    (hnul : arguments.any Host.hasNul = false)
    (htakes : host.takes (Path.ofParts [name]).text arguments = true) :
    (f.beginRequest host document).value.1 = .running ⟨text, f.settings, [],
      ⟨(Path.ofParts [name]).text, engine arguments (Text.Utf8.encode text.toList)⟩⟩ := by
  have hdocument : (readDocument host document).value = .ok (.ok text) := by
    simp only [readDocument, hread, Logged.value_pure]
  have hnamed : (Path.ofParts [name]).text ≠ "" := by simp [IsPlainName.text_eq]
  have hlaunch := (launch_eq_ok_iff host (Path.ofParts [name]).text (options.mergeOne derived)
    text _).2 ⟨hnamed, arguments, harguments, h.startWith hnul htakes⟩
  rw [(beginRequest_prepare host f document).1, prepare, hdocument, hengine, hoptions]
  simp only [prepareBy, hempty, Bool.false_eq_true, if_false, hderived, Prepared.format, hlaunch,
    List.append_nil]

end IsEngine

end MarkupTidy.CommandLine
