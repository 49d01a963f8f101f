import MarkupTidy.Proofs.Files.AbsolutePaths
import MarkupTidy.Proofs.Files.Refusals
import MarkupTidy.Runner

/-!
Engines that are found, and what launching them starts. A search tests the path that it gives, from
the directory that the host works in; a launch takes a name without a slash from the search path. So
a launch starts the file that was tested where the path has a slash or comes from the search path
itself, and a configured name without a slash starts whatever has that name there.
-/
namespace MarkupTidy

/-- Only nothing at all in front of a text gives a path without a slash. -/
theorem Path.joinText_of_no_slash {before behind : String}
    (h : (joinText before behind).toList.contains '/' = false) :
    joinText before behind = behind := by
  rw [← Bool.not_eq_true, List.contains_iff_mem] at h
  unfold joinText at h ⊢
  split at h
  · next hstarts => rw [if_pos hstarts]
  · next hstarts =>
    rw [if_neg hstarts]
    split at h
    · next hends =>
      rw [if_pos hends]
      rcases Bool.or_eq_true_iff.1 hends with hempty | hslash
      · rw [String.isEmpty_iff.1 hempty, String.empty_append]
      · rw [String.endsWith_eq_endsWith_toSlice, String.Slice.endsWith_string_iff,
          String.copy_toSlice] at hslash
        apply absurd _ h
        rw [String.toList_append]
        apply List.mem_append_left
        apply hslash.subset
        decide
    · apply absurd _ h
      simp only [String.toList_append, List.mem_append]
      exact Or.inl (Or.inr (by decide))

namespace Host

open Runner

/-- The paths that a launch tries, in their order. -/
def tried (host : Host) (executable : String) : List String :=
  if executable.toList.contains '/' then [executable] else host.candidates executable

/-- The path of the first program that a launch comes to. -/
def launched? (host : Host) (executable : String) : Option String :=
  (host.tried executable).find? host.isExecutable

theorem start_eq_startFirst (host : Host) (executable : String) (arguments : List String) :
    host.start executable arguments =
      host.startFirst executable arguments none (host.tried executable) := by
  unfold start tried
  split
  · rw [startFirst]
    cases host.startAt executable arguments executable with
    | ok engine => rfl
    | error refusal => rfl
  · rfl

theorem isExecutable_iff (host : Host) (path : String) :
    host.isExecutable path = true ↔
      ∃ place file, host.stat path = .ok (place, .file file) ∧ file.isRunnable = true := by
  unfold isExecutable file?
  cases hstat : host.stat path with
  | error fault => simp
  | ok found =>
    obtain ⟨place, node⟩ := found
    cases node with
    | file file => simp
    | directory => simp
    | link target => simp

/-- A text that leads to a node is a path. -/
theorem hasNul_of_stat {host : Host} {path : String} {found : Location × Node}
    (h : host.stat path = .ok found) : hasNul path = false := by
  cases hnul : hasNul path with
  | false => rfl
  | true =>
    simp only [stat, reach, hnul, if_true] at h
    cases h

theorem walk_of_stat {host : Host} {path : String} {place : Location} {node : Node}
    (h : host.stat path = .ok (place, node)) : host.walk .target path = .ok (.node place node) := by
  simp only [stat, reach, hasNul_of_stat h, Bool.false_eq_true, if_false] at h
  cases hwalk : host.walk .target path with
  | error refusal =>
    rw [hwalk] at h
    cases h
  | ok found =>
    rw [hwalk] at h
    cases found with
    | vacant place => cases h
    | node place node =>
      cases h
      rfl

/-- A program that may be run is opened. -/
theorem program_of_stat {host : Host} {path : String} {place : Location} {file : File}
    (h : host.stat path = .ok (place, .file file)) (hrunnable : file.isRunnable = true) :
    host.program path = .ok file := by
  have hwalk := walk_of_stat h
  have hnamed : path.isEmpty = false := by
    rw [← Bool.not_eq_true]
    intro hempty
    simp only [walk, FileTree.walk, hempty, if_true] at hwalk
    cases hwalk
  simp only [program, hnamed, hwalk, hrunnable, Bool.false_eq_true, if_false, if_true]

/-- What is no program that may be run is not opened. -/
theorem program_refuses {host : Host} {path : String} (hnul : hasNul path = false)
    (h : host.isExecutable path = false) : ∃ refusal, host.program path = .error refusal := by
  have hclosed : ∀ place file, host.walk .target path = .ok (.node place (.file file)) →
      file.isRunnable = false := by
    intro place file hwalk
    rw [← Bool.not_eq_true]
    intro hrunnable
    have hstat : host.stat path = .ok (place, .file file) := by
      simp only [stat, reach, hnul, hwalk, Bool.false_eq_true, if_false]
      rfl
    have htrue := (isExecutable_iff host path).2 ⟨place, file, hstat, hrunnable⟩
    rw [h] at htrue
    cases htrue
  unfold program
  split
  · exact ⟨.denied, rfl⟩
  · split
    · next refusal hwalk => exact ⟨refusal, rfl⟩
    · exact ⟨.noEntry, rfl⟩
    · next place file hwalk =>
      rw [hclosed place file hwalk]
      exact ⟨.denied, rfl⟩
    · exact ⟨.denied, rfl⟩

theorem startAt_refuses {host : Host} {path : String} (executable : String)
    (arguments : List String) (h : ∃ refusal, host.program path = .error refusal) :
    ∃ refusal, host.startAt executable arguments path = .error refusal := by
  obtain ⟨refusal, hprogram⟩ := h
  refine ⟨refusal, ?_⟩
  simp only [startAt, hprogram, bind, Except.bind]

/-- What a program starts as does not depend on arguments that can be passed on. -/
theorem startAt_of_takes {host : Host} {executable : String} {arguments : List String}
    (h : host.takes executable arguments = true) (path : String) :
    host.startAt executable arguments path = host.engineAt path := by
  cases hprogram : host.program path with
  | error refusal =>
    simp only [startAt, engineAt, programLimit, engineOf, hprogram, bind, Except.bind]
  | ok file => simp only [startAt, hprogram, h, if_true, bind, Except.bind]

/-- A program that is an engine runs as it is. -/
theorem engineAt_of_engine {host : Host} {path : String} {file : File} {engine : Engine}
    (h : host.program path = .ok file) (hengine : file.engine = some engine) :
    host.engineAt path = .ok engine := by
  simp only [engineAt, programLimit, engineOf, h, hengine, bind, Except.bind]
  rfl

/-- An engine at a path with a slash starts by its path. -/
theorem start_of_engine {host : Host} {path : String} {file : File} {engine : Engine}
    (hslash : path.toList.contains '/' = true) (hprogram : host.program path = .ok file)
    (hengine : file.engine = some engine) {arguments : List String}
    (htakes : host.takes path arguments = true) : host.start path arguments = .ok engine := by
  rw [start, if_pos hslash, startAt_of_takes htakes, engineAt_of_engine hprogram hengine]

/-- An engine at a path with a slash starts on arguments that it can be passed. -/
theorem startWith_of_engine {host : Host} {path : String} {file : File} {engine : Engine}
    (hslash : path.toList.contains '/' = true) (hname : hasNul path = false)
    (hprogram : host.program path = .ok file) (hengine : file.engine = some engine)
    {arguments : List String} (hnul : arguments.any hasNul = false)
    (htakes : host.takes path arguments = true) (text : String) :
    startWith host path arguments text =
      .ok ⟨path, engine arguments (Text.Utf8.encode text.toList)⟩ := by
  simp only [startWith, List.any_cons, hname, hnul, Bool.or_self, Bool.false_eq_true, if_false,
    start_of_engine hslash hprogram hengine htakes]

/-- Where no path starts a program, none is started. -/
theorem startFirst_refuses {host : Host} {executable : String} {arguments paths : List String}
    (h : ∀ path ∈ paths, ∃ refusal, host.startAt executable arguments path = .error refusal)
    (reported : Option Refusal) :
    ∃ refusal, host.startFirst executable arguments reported paths = .error refusal := by
  induction paths generalizing reported with
  | nil => exact ⟨reported.getD .noEntry, rfl⟩
  | cons path rest ih =>
    obtain ⟨refusal, hrefused⟩ := h path List.mem_cons_self
    rw [startFirst, hrefused]
    apply ih
    intro other hother
    exact h other (List.mem_cons_of_mem path hother)

/-- The first path that starts a program decides. -/
theorem startFirst_starts {host : Host} {executable : String} {arguments before after : List String}
    {other : String} {engine : Engine}
    (hbefore : ∀ path ∈ before, ∃ refusal, host.startAt executable arguments path = .error refusal)
    (hstart : host.startAt executable arguments other = .ok engine) (reported : Option Refusal) :
    host.startFirst executable arguments reported (before ++ other :: after) = .ok engine := by
  induction before generalizing reported with
  | nil => rw [List.nil_append, startFirst, hstart]
  | cons path rest ih =>
    obtain ⟨refusal, hrefused⟩ := hbefore path List.mem_cons_self
    rw [List.cons_append, startFirst, hrefused]
    apply ih
    intro other hother
    exact hbefore other (List.mem_cons_of_mem path hother)

/-- A search path without a zero octet gives paths without one. -/
theorem hasNul_of_mem_tried {host : Host} {executable path : String}
    (hsearch : hasNul host.searchPath = false) (hname : hasNul executable = false)
    (h : path ∈ host.tried executable) : hasNul path = false := by
  unfold tried at h
  split at h
  · rw [List.mem_singleton.1 h]
    exact hname
  · obtain ⟨entry, hentry, rfl⟩ := List.mem_map.1 h
    have hpiece : hasNul (String.ofList entry) = false := by
      rw [← Bool.not_eq_true, hasNul_iff, String.toList_ofList]
      intro hnul
      have hthere := (hasNul_iff host.searchPath).2 (Text.of_mem_pieces hentry _ hnul).1
      rw [hsearch] at hthere
      cases hthere
    have hslash : hasNul "/" = false := by decide
    unfold Path.joinText
    split
    · exact hname
    · split
      · rw [hasNul_append, hpiece, hname]
        rfl
      · rw [hasNul_append, hasNul_append, hpiece, hslash, hname]
        rfl

/-- Where a launch comes to no program, it is refused. -/
theorem start_refuses {host : Host} {executable : String}
    (hsearch : hasNul host.searchPath = false) (hname : hasNul executable = false)
    (h : host.launched? executable = none) (arguments : List String) :
    ∃ refusal, host.start executable arguments = .error refusal := by
  rw [start_eq_startFirst]
  apply startFirst_refuses
  intro path hpath
  have hclosed : host.isExecutable path = false := by
    rw [← Bool.not_eq_true]
    exact List.find?_eq_none.1 h path hpath
  exact startAt_refuses executable arguments
    (program_refuses (hasNul_of_mem_tried hsearch hname hpath) hclosed)

/-- If the first program that a launch comes to can be started, it is. -/
theorem start_of_launched {host : Host} {executable other : String}
    (hsearch : hasNul host.searchPath = false) (hname : hasNul executable = false)
    (h : host.launched? executable = some other) {arguments : List String} {engine : Engine}
    (hstart : host.startAt executable arguments other = .ok engine) :
    host.start executable arguments = .ok engine := by
  obtain ⟨hother, before, after, htried, hbefore⟩ := List.find?_eq_some_iff_append.1 h
  rw [start_eq_startFirst, htried]
  apply startFirst_starts _ hstart
  intro path hpath
  have hclosed : host.isExecutable path = false := by
    have hnot := hbefore path hpath
    simpa using hnot
  have hmem : path ∈ host.tried executable := by
    rw [htried]
    exact List.mem_append_left _ hpath
  exact startAt_refuses executable arguments
    (program_refuses (hasNul_of_mem_tried hsearch hname hmem) hclosed)

/-- What becomes of a launch whose first program is a file at a path: this program is started,
unless the arguments cannot be passed on, the file is no program, or it is a script whose
interpreter does not start. -/
inductive Comes (host : Host) (executable other : String) (file : File)
    (arguments : List String) (text : String) : Prop
  | started (engine : Engine) (hprogram : host.startAt executable arguments other = .ok engine)
    (hlaunch : startWith host executable arguments text =
      .ok ⟨executable, engine arguments (Text.Utf8.encode text.toList)⟩)
  | unfit (harguments : arguments.any hasNul = true ∨ host.takes executable arguments = false)
  | noProgram (hengine : file.engine = none)
    (hprogram : host.startAt executable arguments other = .error .notAProgram)
  | script (interpreter : Interpreter) (hengine : file.engine = none)
    (hscript : Interpreter.ofOctets? file.octets = some interpreter) (refusal : Refusal)
    (hprogram : host.startAt executable arguments other = .error refusal)

/-- A program that may be run starts, or says by its content why it does not. -/
theorem startAt_cases {host : Host} {path : String} {file : File}
    (h : host.program path = .ok file) (executable : String) (arguments : List String) :
    (∃ engine, host.startAt executable arguments path = .ok engine) ∨
      host.takes executable arguments = false ∨
      file.engine = none ∧
        (host.startAt executable arguments path = .error .notAProgram ∨
          ∃ interpreter refusal, Interpreter.ofOctets? file.octets = some interpreter ∧
            host.startAt executable arguments path = .error refusal) := by
  cases htakes : host.takes executable arguments with
  | false => exact Or.inr (Or.inl rfl)
  | true =>
    rw [startAt_of_takes htakes]
    cases hengine : file.engine with
    | some engine =>
      exact Or.inl ⟨engine, engineAt_of_engine h hengine⟩
    | none =>
      cases hscript : Interpreter.ofOctets? file.octets with
      | none =>
        right
        right
        have hnone : host.engineAt path = .error .notAProgram := by
          simp only [engineAt, programLimit, engineOf, h, hengine, hscript, bind, Except.bind]
        exact ⟨rfl, Or.inl hnone⟩
      | some interpreter =>
        cases hresult : host.engineAt path with
        | ok engine => exact Or.inl ⟨engine, rfl⟩
        | error refusal =>
          exact Or.inr (Or.inr ⟨rfl, Or.inr ⟨interpreter, refusal, rfl, rfl⟩⟩)

theorem comes_of_launched {host : Host} {executable other : String}
    (hsearch : hasNul host.searchPath = false) (hname : hasNul executable = false)
    (h : host.launched? executable = some other) {place : Location} {file : File}
    (hstat : host.stat other = .ok (place, .file file)) (hrunnable : file.isRunnable = true)
    (arguments : List String) (text : String) :
    host.Comes executable other file arguments text := by
  rcases startAt_cases (program_of_stat hstat hrunnable) executable arguments with
    ⟨engine, hprogram⟩ | htakes | ⟨hengine, hprogram | ⟨interpreter, refusal, hscript, hprogram⟩⟩
  · cases hnul : arguments.any hasNul with
    | true => exact .unfit (Or.inl hnul)
    | false =>
      apply Comes.started engine hprogram
      have hstart := start_of_launched hsearch hname h hprogram
      simp only [startWith, List.any_cons, hname, hnul, Bool.or_self, Bool.false_eq_true, if_false,
        hstart]
  · exact .unfit (Or.inr htakes)
  · exact .noProgram hengine hprogram
  · exact .script interpreter hengine hscript refusal hprogram

theorem find_which {host : Host} {name path : String} (h : host.which name = some path) :
    (host.candidates name).find? host.isExecutable = some path := by
  unfold which at h
  split at h
  · cases h
  · exact h

/-- The path of an engine that was found is the configured one, or stands on the search path. -/
theorem path_findEngine {host : Host} {configured : Option String} {path : String}
    (h : (host.findEngine configured).value.path = some path) :
    host.isExecutable path = true ∧
      (configured = some path ∨ host.which standardEngine = some path) := by
  have hstandard : ∀ warnings, (host.findStandard warnings).path = some path →
      host.which standardEngine = some path := by
    intro warnings hpath
    unfold findStandard at hpath
    cases hwhich : host.which standardEngine with
    | none =>
      rw [hwhich] at hpath
      cases hpath
    | some found =>
      rw [hwhich] at hpath
      exact hpath
  have hsearched : host.which standardEngine = some path →
      host.isExecutable path = true ∧
        (configured = some path ∨ host.which standardEngine = some path) := by
    intro hwhich
    exact ⟨List.find?_some (find_which hwhich), Or.inr hwhich⟩
  unfold findEngine at h
  split at h
  · exact hsearched (hstandard _ h)
  · next found hfound =>
    obtain ⟨hconfigured, -⟩ := Option.filter_eq_some_iff.1 hfound
    split at h
    · next hrunnable =>
      cases h
      exact ⟨hrunnable, Or.inl hconfigured⟩
    · exact hsearched (hstandard _ h)

/-- A path with a slash is launched as it is, and so is one that the search path gave. -/
theorem launched_of_found {host : Host} {path : String} (hrunnable : host.isExecutable path = true)
    (h : path.toList.contains '/' = true ∨ host.which standardEngine = some path) :
    host.launched? path = some path := by
  unfold launched? tried
  cases hslash : path.toList.contains '/' with
  | true =>
    rw [if_pos rfl, List.find?_cons_of_pos hrunnable]
  | false =>
    rcases h with hcontains | hwhich
    · rw [hslash] at hcontains
      cases hcontains
    · -- Such a path is the bare name, which an empty entry of the search path gave.
      have hfind := find_which hwhich
      obtain ⟨entry, -, hentry⟩ := List.mem_map.1 (List.mem_of_find?_eq_some hfind)
      have hbare : path = standardEngine := by
        rw [← hentry]
        apply Path.joinText_of_no_slash
        rw [hentry]
        exact hslash
      rw [if_neg Bool.false_ne_true]
      rw [← hbare] at hfind
      exact hfind

/-- A found engine is a file that was tested, and a launch in the same state comes to this file, if
its path has a slash or was not the configured one but came from the search path. A configured name
without a slash is launched from the search path: what has the name there first is started, wherever
it lies, and nothing is if there is no such program. -/
theorem found_engine_launches (host : Host) (configured : Option String) (path : String)
    (hsearch : hasNul host.searchPath = false)
    (hfound : (host.findEngine configured).value.path = some path) :
    ∃ place file, host.stat path = .ok (place, .file file) ∧ file.isRunnable = true ∧
      (path.toList.contains '/' = true ∨ configured ≠ some path → ∀ arguments text,
        host.Comes path path file arguments text) ∧
      (path.toList.contains '/' = false → configured = some path →
        (∀ other place' file', (host.candidates path).find? host.isExecutable = some other →
          host.stat other = .ok (place', .file file') → ∀ arguments text,
            host.Comes path other file' arguments text) ∧
        ((∀ other ∈ host.candidates path, host.isExecutable other = false) →
          ∀ arguments text, ∃ fault, startWith host path arguments text = .error fault)) := by
  obtain ⟨hrunnable, hsource⟩ := path_findEngine hfound
  obtain ⟨place, file, hstat, hbit⟩ := (isExecutable_iff host path).1 hrunnable
  have hname := hasNul_of_stat hstat
  refine ⟨place, file, hstat, hbit, ?_, ?_⟩
  · intro hcase arguments text
    have hlaunched : host.launched? path = some path := by
      apply launched_of_found hrunnable
      rcases hcase with hslash | hother
      · exact Or.inl hslash
      · exact Or.inr (hsource.resolve_left hother)
    exact comes_of_launched hsearch hname hlaunched hstat hbit arguments text
  · intro hbare hconfigured
    have htried : host.tried path = host.candidates path := by
      rw [tried, hbare]
      rfl
    constructor
    · intro other place' file' hother hstat' arguments text
      have hlaunched : host.launched? path = some other := by rw [launched?, htried, hother]
      have hrunnable' : file'.isRunnable = true := by
        have hopen := List.find?_some hother
        obtain ⟨place'', file'', hstat'', hbit''⟩ := (isExecutable_iff host other).1 hopen
        rw [hstat'] at hstat''
        cases hstat''
        exact hbit''
      exact comes_of_launched hsearch hname hlaunched hstat' hrunnable' arguments text
    · intro hnone arguments text
      have hlaunched : host.launched? path = none := by
        rw [launched?, htried, List.find?_eq_none]
        intro other hother
        rw [hnone other hother]
        exact Bool.false_ne_true
      obtain ⟨refusal, hstart⟩ := start_refuses hsearch hname hlaunched arguments
      unfold startWith
      rw [hstart]
      split
      · exact ⟨_, rfl⟩
      · exact ⟨_, rfl⟩

/-- A host with a program in the directory that it works in, and a search path elsewhere. -/
def localHost : Host where
  tree := ⟨[(["t"], .file ⟨[], 0o755, some fun _ input => .ends ⟨input, [], 0⟩⟩)]⟩
  directory := []
  searchPath := "/bin"

namespace localHost

theorem program_runs : File.isRunnable ⟨[], 0o755, some fun _ input => .ends ⟨input, [], 0⟩⟩ =
    true := by
  simp [File.isRunnable, File.ownerBit]

theorem stat_path : localHost.stat "/t" =
    .ok (["t"], .file ⟨[], 0o755, some fun _ input => .ends ⟨input, [], 0⟩⟩) := by
  have hplain : IsPlainName "t" := by decide
  exact hplain.stat_eq rfl nofun

/-- A name without a slash is one in the working directory. -/
theorem stat_name : localHost.stat "t" =
    .ok (["t"], .file ⟨[], 0o755, some fun _ input => .ends ⟨input, [], 0⟩⟩) := by
  have hnul : hasNul "t" = false := by decide
  have hlong : FileTree.isPathTooLong "t" = false := by decide
  have hstart : FileTree.walkStart [] "t" = [] := by decide
  have hsteps : FileTree.steps "t" = ["t"] := by decide
  have hname : FileTree.isNameTooLong "t" = false := by decide
  simp [stat, reach, walk, FileTree.walk, FileTree.walkFrom, FileTree.node?, Node.isDirectory,
    localHost, hnul, hlong, hstart, hsteps, hname, Except.mapError]

theorem find_configured {path : String} (h : path.isEmpty = false) {place : Location} {file : File}
    (hstat : localHost.stat path = .ok (place, .file file)) (hrunnable : file.isRunnable = true) :
    (localHost.findEngine (some path)).value = ⟨some path, []⟩ := by
  have hopen := (isExecutable_iff localHost path).2 ⟨place, file, hstat, hrunnable⟩
  simp only [findEngine, Option.filter, h, Bool.not_false, if_true, hopen, Logged.value_pure]

theorem program_candidate : localHost.program "/bin/t" = .error .noEntry := by
  have hlong : FileTree.isPathTooLong "/bin/t" = false := by decide
  have hstart : FileTree.walkStart [] "/bin/t" = [] := by decide
  have hsteps : FileTree.steps "/bin/t" = ["bin", "t"] := by decide
  have hname : FileTree.isNameTooLong "bin" = false := by decide
  simp [program, walk, FileTree.walk, FileTree.walkFrom, FileTree.node?, Node.isDirectory,
    List.lookup_cons, localHost, hlong, hstart, hsteps, hname]

end localHost

/-- A program that is configured by its path starts. -/
theorem found_engine_launches_path :
    (localHost.findEngine (some "/t")).value.path = some "/t" ∧
      ∃ launched, startWith localHost "/t" [] "" = .ok launched := by
  have hfound : (localHost.findEngine (some "/t")).value.path = some "/t" := by
    rw [localHost.find_configured (by decide) localHost.stat_path localHost.program_runs]
  have hsearch : hasNul localHost.searchPath = false := by decide
  refine ⟨hfound, ?_⟩
  obtain ⟨place, file, hstat, -, hcomes, -⟩ :=
    found_engine_launches localHost (some "/t") "/t" hsearch hfound
  rw [localHost.stat_path] at hstat
  cases hstat
  cases hcomes (Or.inl (by decide)) [] "" with
  | started engine hprogram hlaunch => exact ⟨_, hlaunch⟩
  | unfit harguments => rcases harguments with hnul | htakes <;> contradiction
  | noProgram hengine hprogram => cases hengine
  | script interpreter hengine hscript refusal hprogram => cases hengine

/-- A configured name in the working directory is found, and its launch ends because there is no
such file. -/
theorem local_name_not_launched :
    (localHost.findEngine (some "t")).value = ⟨some "t", []⟩ ∧
      ∀ arguments, startWith localHost "t" arguments "" =
        if arguments.any hasNul then .error .embeddedNul
        else .error (.launch (some "t") (.refused ⟨.noEntry, ["t"]⟩)) := by
  have hcandidates : localHost.candidates "t" = ["/bin/t"] := by
    have hfront : "t".startsWith "/" = false := by
      rw [String.startsWith_eq_startsWith_toSlice, String.Slice.startsWith_string_eq_false_iff]
      decide
    have hback : "/bin".endsWith "/" = false := by
      rw [String.endsWith_eq_endsWith_toSlice, String.Slice.endsWith_string_eq_false_iff]
      decide
    have hpieces : Text.pieces (· == ':') localHost.searchPath.toList = ["/bin".toList] := by
      decide
    have hnamed : "/bin".isEmpty = false := by decide
    simp only [candidates, hpieces, List.map_cons, List.map_nil, String.ofList_toList,
      Path.joinText, hfront, hback, hnamed, Bool.or_self, Bool.false_eq_true, if_false]
    rfl
  have hslash : ("t".toList.contains '/') = false := by decide
  have hstart : ∀ arguments, localHost.start "t" arguments = .error .noEntry := by
    intro arguments
    simp only [start, hslash, Bool.false_eq_true, if_false, hcandidates, startFirst, startAt,
      localHost.program_candidate, bind, Except.bind]
    rfl
  have hnul : hasNul "t" = false := by decide
  refine ⟨localHost.find_configured (by decide) localHost.stat_name localHost.program_runs, ?_⟩
  intro arguments
  simp only [startWith, List.any_cons, hnul, Bool.false_or, hstart]

end Host

end MarkupTidy
