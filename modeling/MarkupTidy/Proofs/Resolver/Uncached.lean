import MarkupTidy.Proofs.Resolver.OverrideFile

/-!
What a search for base options finds when nothing is kept. An override file replaces the options of
the settings entirely; one that is passed over leaves them as they are, with one warning, and ends
the search all the same. The search gives no options at all only where the nearest file is too much
for its readers.
-/
namespace MarkupTidy

open Override

/-- The base options for a directory, straight from the files. -/
inductive Uncached (host : Host) (settings : Settings) : Option Path → Resolved → Prop
  | override {start file : Path} {options : OptionMap} (search : settings.fileSearch = true)
    (nearest : IsNearest host start settings.overrideName file)
    (holds : Holds host file options) :
    Uncached host settings (some start) ⟨options, some file, []⟩
  | passedOver {start file : Path} (search : settings.fileSearch = true)
    (nearest : IsNearest host start settings.overrideName file)
    (rejected : IsRejected host file) :
    Uncached host settings (some start)
      ⟨settings.options, none, [s!"options in file {file.name} not valid"]⟩
  | absent {start : Path} (search : settings.fileSearch = true)
    (none : IsAbsent host start settings.overrideName) :
    Uncached host settings (some start) ⟨settings.options, .none, []⟩
  | unsearched (directory : Option Path) (search : settings.fileSearch = false) :
    Uncached host settings directory ⟨settings.options, .none, []⟩
  | nowhere : Uncached host settings .none ⟨settings.options, .none, []⟩

namespace Resolved

theorem value_find_unsearched {settings : Settings} (host : Host) (directory : Option Path)
    (h : settings.fileSearch = false) :
    (find host settings directory).value = .ok (ofSettings settings) := by
  unfold find
  simp only [h]
  rfl

theorem value_find_nowhere (host : Host) (settings : Settings) :
    (find host settings none).value = .ok (ofSettings settings) := by
  unfold find
  cases settings.fileSearch <;> rfl

theorem value_find_searched {settings : Settings} (host : Host) (start : Path)
    (h : settings.fileSearch = true) :
    (find host settings (some start)).value =
      match Override.find host start settings.overrideName with
      | .error fault => .error fault
      | .ok none => .ok (ofSettings settings)
      | .ok (some file) => (ofFile host settings file).value := by
  simp only [find, h]
  cases Override.find host start settings.overrideName with
  | error fault => rfl
  | ok found => cases found <;> rfl

theorem value_find_nearest {host : Host} {settings : Settings} {start file : Path}
    (hsearch : settings.fileSearch = true)
    (hnearest : IsNearest host start settings.overrideName file) :
    (find host settings (some start)).value = (ofFile host settings file).value := by
  rw [value_find_searched host start hsearch, (find_eq_some_iff ..).mpr hnearest]

/-- A search finds the base options for a directory, straight from the files. -/
theorem find_eq_ok_iff (host : Host) (settings : Settings) (directory : Option Path)
    (resolved : Resolved) :
    (find host settings directory).value = .ok resolved ↔
      Uncached host settings directory resolved := by
  constructor
  · intro h
    cases hsearch : settings.fileSearch with
    | false =>
      rw [value_find_unsearched host directory hsearch] at h
      cases h
      exact .unsearched directory hsearch
    | true =>
      cases directory with
      | none =>
        rw [value_find_nowhere] at h
        cases h
        exact .nowhere
      | some start =>
        rw [value_find_searched host start hsearch] at h
        cases hfind : Override.find host start settings.overrideName with
        | error fault => simp [hfind] at h
        | ok found =>
          cases found with
          | none =>
            simp only [hfind, Except.ok.injEq] at h
            subst h
            exact .absent hsearch ((find_eq_none_iff ..).mp hfind)
          | some file =>
            have hnearest := (find_eq_some_iff ..).mp hfind
            simp only [hfind] at h
            rcases content_cases hnearest.isFile with ⟨options, hholds⟩ | hrejected | ⟨fault, hover⟩
            · rw [value_ofFile_holds settings hholds] at h
              cases h
              exact .override hsearch hnearest hholds
            · rw [value_ofFile_rejected settings hrejected] at h
              cases h
              exact .passedOver hsearch hnearest hrejected
            · rw [value_ofFile_overwhelms settings hover] at h
              cases h
  · intro h
    cases h with
    | override hsearch hnearest hholds =>
      rw [value_find_nearest hsearch hnearest, value_ofFile_holds settings hholds]
    | passedOver hsearch hnearest hrejected =>
      rw [value_find_nearest hsearch hnearest, value_ofFile_rejected settings hrejected]
      rfl
    | absent hsearch hnone =>
      rw [value_find_searched host _ hsearch, (find_eq_none_iff ..).mpr hnone]
      rfl
    | unsearched directory hsearch => exact value_find_unsearched host directory hsearch
    | nowhere => exact value_find_nowhere host settings

end Resolved

namespace Resolver

theorem directoryFor_eq_none_iff (host : Host) (r : Resolver) (document : Option Path) :
    r.directoryFor host document = .ok none ↔ document = none ∧ r.workspace = none := by
  unfold directoryFor
  cases document with
  | some document => cases hresolve : host.resolve document <;> simp [hresolve, Except.map]
  | none =>
    cases r.workspace with
    | some workspace => cases hresolve : host.resolve workspace <;> simp [hresolve, Except.map]
    | none => simp

theorem value_optionsFor {host : Host} {r : Resolver} {document directory : Option Path}
    (h : r.directoryFor host document = .ok directory) :
    (r.optionsFor host document).value =
      match r.kept.lookup directory with
      | some resolved => (.ok resolved, r)
      | none =>
        match (Resolved.find host r.settings directory).value with
        | .ok resolved => (.ok resolved, r.keep r.edition directory resolved)
        | .error fault => (.error fault, r) := by
  simp only [optionsFor, h, optionsIn, look]
  cases r.kept.lookup directory with
  | some resolved => rfl
  | none =>
    simp only [Logged.value_bind, settings]
    cases (Resolved.find host r.edition.settings directory).value <;> rfl

/-- What the nearest override file holds decides the options of a document: it gives all of them, or
it is passed over with one warning, unless it is too much for its readers. -/
theorem nearest_file_decides (host : Host) (r : Resolver) (document : Option Path)
    (directory file : Path) (hsearch : r.settings.fileSearch = true)
    (hdirectory : r.directoryFor host document = .ok (some directory))
    (hkept : r.kept.lookup (some directory) = none)
    (hnearest : IsNearest host directory r.settings.overrideName file) :
    ((∃ resolved, (r.optionsFor host document).value.1 = .ok resolved) ↔
      ¬ ∃ fault, Overwhelms host file fault) ∧
    ∀ resolved, (r.optionsFor host document).value.1 = .ok resolved →
      (Holds host file resolved.options ∧ resolved.source = some file ∧ resolved.warnings = []) ∨
      IsRejected host file ∧ resolved.options = r.settings.options ∧ resolved.source = none ∧
        resolved.warnings = [s!"options in file {file.name} not valid"] := by
  have hanswer : (r.optionsFor host document).value.1 =
      (Resolved.ofFile host r.settings file).value := by
    rw [value_optionsFor hdirectory, hkept, Resolved.value_find_nearest hsearch hnearest]
    cases (Resolved.ofFile host r.settings file).value <;> rfl
  rw [hanswer]
  constructor
  · constructor
    · rintro ⟨resolved, hresolved⟩ ⟨fault, hover⟩
      rw [Resolved.value_ofFile_overwhelms r.settings hover] at hresolved
      cases hresolved
    · intro hcalm
      rcases content_cases hnearest.isFile with ⟨options, hholds⟩ | hrejected | hover
      · exact ⟨_, Resolved.value_ofFile_holds r.settings hholds⟩
      · exact ⟨_, Resolved.value_ofFile_rejected r.settings hrejected⟩
      · exact absurd hover hcalm
  · intro resolved hresolved
    rcases content_cases hnearest.isFile with ⟨options, hholds⟩ | hrejected | ⟨fault, hover⟩
    · rw [Resolved.value_ofFile_holds r.settings hholds] at hresolved
      cases hresolved
      exact Or.inl ⟨hholds, rfl, rfl⟩
    · rw [Resolved.value_ofFile_rejected r.settings hrejected] at hresolved
      cases hresolved
      exact Or.inr ⟨hrejected, rfl, rfl, rfl⟩
    · rw [Resolved.value_ofFile_overwhelms r.settings hover] at hresolved
      cases hresolved

end Resolver

/-- A host whose root holds an override file and nothing else. -/
def optionsHost (octets : Text.Utf8.Octets) : Host where
  tree := ⟨[([".htmlTidy"], .file ⟨octets, 0o644, none⟩)]⟩
  directory := []
  searchPath := ""

namespace optionsHost

theorem walk_root (octets : Text.Utf8.Octets) :
    (optionsHost octets).walk .target "/" = .ok (.node [] .directory) := by
  have hsteps : FileTree.steps "/" = [] := by decide
  have hstart : FileTree.walkStart [] "/" = [] := by decide
  have hpath : FileTree.isPathTooLong "/" = false := by decide
  simp [Host.walk, FileTree.walk, FileTree.walkFrom, FileTree.node?, optionsHost, hsteps, hstart,
    hpath]

/-- A page that is not there yet. -/
theorem walk_page (octets : Text.Utf8.Octets) (purpose : Purpose) :
    (optionsHost octets).walk purpose "/a.html" = .ok (.vacant ["a.html"]) := by
  have hsteps : FileTree.steps "/a.html" = ["a.html"] := by decide
  have hstart : FileTree.walkStart [] "/a.html" = [] := by decide
  have hpath : FileTree.isPathTooLong "/a.html" = false := by decide
  have hname : FileTree.isNameTooLong "a.html" = false := by decide
  simp [Host.walk, FileTree.walk, FileTree.walkFrom, FileTree.node?, Node.isDirectory, optionsHost,
    hsteps, hstart, hpath, hname, List.lookup_cons]

theorem walk_options (octets : Text.Utf8.Octets) :
    (optionsHost octets).walk .target "/.htmlTidy" =
      .ok (.node [".htmlTidy"] (.file ⟨octets, 0o644, none⟩)) := by
  have hsteps : FileTree.steps "/.htmlTidy" = [".htmlTidy"] := by decide
  have hstart : FileTree.walkStart [] "/.htmlTidy" = [] := by decide
  have hpath : FileTree.isPathTooLong "/.htmlTidy" = false := by decide
  have hname : FileTree.isNameTooLong ".htmlTidy" = false := by decide
  simp [Host.walk, FileTree.walk, FileTree.walkFrom, FileTree.node?, Node.isDirectory, optionsHost,
    hsteps, hstart, hpath, hname]

theorem resolve_root (octets : Text.Utf8.Octets) :
    (optionsHost octets).resolve ⟨.root, []⟩ = .ok ⟨.root, []⟩ := by
  have hnul : Host.hasNul "/" = false := by decide
  have htext : Path.text ⟨.root, []⟩ = "/" := by decide
  have hpieces : Path.split "/" = ["", ""] := by decide
  have hbegin : FileTree.startOf ⟨.none, []⟩ "/" = ⟨.root, []⟩ := by decide
  simp [Host.resolve, htext, hnul, Host.absoluteOf, FileTree.resolve, hpieces, hbegin,
    FileTree.resolveFrom, Host.absolute, Path.isAbsolute, FileTree.descend, walk_root, bind,
    Except.bind]

theorem resolve_page (octets : Text.Utf8.Octets) :
    (optionsHost octets).resolve ⟨.root, ["a.html"]⟩ = .ok ⟨.root, ["a.html"]⟩ := by
  have hnul : Host.hasNul "/a.html" = false := by decide
  have htext : Path.text ⟨.root, ["a.html"]⟩ = "/a.html" := by decide
  have hpieces : Path.split "/a.html" = ["", "a.html"] := by decide
  have hbegin : FileTree.startOf ⟨.none, []⟩ "/a.html" = ⟨.root, []⟩ := by decide
  have hlink : (optionsHost octets).tree.linkAt? (optionsHost octets).directory
      ⟨.root, ["a.html"]⟩ = none := by
    have hwalk := walk_page octets .link
    rw [Host.walk] at hwalk
    simp [FileTree.linkAt?, htext, hwalk]
  simp [Host.resolve, htext, hnul, Host.absoluteOf, FileTree.resolve, hpieces, hbegin,
    FileTree.resolveFrom, Path.child, hlink, Host.absolute, Path.isAbsolute, FileTree.descend,
    walk_page, bind, Except.bind]

theorem stat_options (octets : Text.Utf8.Octets) :
    (optionsHost octets).stat "/.htmlTidy" =
      .ok ([".htmlTidy"], .file ⟨octets, 0o644, none⟩) := by
  have hnul : Host.hasNul "/.htmlTidy" = false := by decide
  simp [Host.stat, Host.reach, hnul, walk_options, Except.mapError]

theorem readOctets_options (octets : Text.Utf8.Octets) :
    (optionsHost octets).readOctets ⟨.root, [".htmlTidy"]⟩ = .ok octets := by
  have htext : Path.text ⟨.root, [".htmlTidy"]⟩ = "/.htmlTidy" := by decide
  have hreadable : File.isReadable ⟨octets, 0o644, none⟩ = true := by
    simp [File.isReadable, File.ownerBit]
  simp only [Host.readOctets, htext, stat_options, hreadable, if_true]

theorem isNearest_options (octets : Text.Utf8.Octets) :
    IsNearest (optionsHost octets) ⟨.root, []⟩ ".htmlTidy" ⟨.root, [".htmlTidy"]⟩ := by
  have hcandidate : candidate ".htmlTidy" ⟨.root, []⟩ = ⟨.root, [".htmlTidy"]⟩ := by decide
  have htext : Path.text ⟨.root, [".htmlTidy"]⟩ = "/.htmlTidy" := by decide
  refine ⟨⟨.root, []⟩, [], ⟨.root, []⟩, [], resolve_root octets, by decide, by simp, ?_,
    hcandidate.symm⟩
  simp only [hcandidate, Host.isFile?, Host.look, htext, stat_options]
  rfl

/-- An empty object is an option map without entries. -/
theorem holds_empty : Holds (optionsHost [0x7B, 0x7D]) ⟨.root, [".htmlTidy"]⟩ .empty := by
  have hdecode : Text.Utf8.decode [0x7B, 0x7D] = .ok ['{', '}'] := by
    simp [Text.Utf8.decode, Text.Utf8.decodeAfter, Text.Utf8.nextHead, Text.Utf8.announced]
  refine ⟨String.ofList ['{', '}'], ?_, rfl⟩
  simp only [Host.readText, readOctets_options, Host.decodeText, hdecode, bind, Except.bind]
  rfl

theorem find_empty :
    (Resolved.find (optionsHost [0x7B, 0x7D]) {} (some ⟨.root, []⟩)).value =
      .ok ⟨.empty, some ⟨.root, [".htmlTidy"]⟩, []⟩ := by
  have hnearest : IsNearest (optionsHost [0x7B, 0x7D]) ⟨.root, []⟩ (Settings.overrideName {})
      ⟨.root, [".htmlTidy"]⟩ := isNearest_options [0x7B, 0x7D]
  rw [Resolved.value_find_nearest rfl hnearest, Resolved.value_ofFile_holds _ holds_empty]

/-- No text at all is no option map. -/
theorem not_holds_nothing (options : OptionMap) :
    ¬ Holds (optionsHost []) ⟨.root, [".htmlTidy"]⟩ options := by
  rintro ⟨text, hread, hjson⟩
  have hdecode : Text.Utf8.decode [] = .ok [] := by
    simp [Text.Utf8.decode, Text.Utf8.decodeAfter]
  have hnothing : (optionsHost []).readText ⟨.root, [".htmlTidy"]⟩ = .ok "" := by
    simp only [Host.readText, readOctets_options, Host.decodeText, hdecode, bind, Except.bind]
    rfl
  rw [hnothing] at hread
  cases hread
  cases hjson

end optionsHost

namespace Resolver

/-- A resolver that has found nothing yet and searches for override files. -/
def searching : Resolver := ofSettings ⟨0, {}⟩ none

theorem directoryFor_page (octets : Text.Utf8.Octets) (r : Resolver) :
    r.directoryFor (optionsHost octets) (some ⟨.root, ["a.html"]⟩) = .ok (some ⟨.root, []⟩) := by
  simp only [directoryFor, optionsHost.resolve_page]
  rfl

/-- An empty object gives the document a result. -/
theorem nearest_file_decides_page :
    searching.settings.fileSearch = true ∧
    IsNearest (optionsHost [0x7B, 0x7D]) ⟨.root, []⟩ searching.settings.overrideName
      ⟨.root, [".htmlTidy"]⟩ ∧
    ∃ resolved, (searching.optionsFor (optionsHost [0x7B, 0x7D])
      (some ⟨.root, ["a.html"]⟩)).value.1 = .ok resolved := by
  have hnearest : IsNearest (optionsHost [0x7B, 0x7D]) ⟨.root, []⟩
      searching.settings.overrideName ⟨.root, [".htmlTidy"]⟩ :=
    optionsHost.isNearest_options [0x7B, 0x7D]
  exact ⟨rfl, hnearest, (nearest_file_decides _ searching _ ⟨.root, []⟩ ⟨.root, [".htmlTidy"]⟩ rfl
    (directoryFor_page _ _) rfl hnearest).1.mpr
      (Resolved.not_overwhelms_of_holds optionsHost.holds_empty)⟩

/-- A nearest file that is no text makes the search raise. -/
theorem undecodable_file_escapes :
    searching.settings.fileSearch = true ∧
    IsNearest (optionsHost [0xff]) ⟨.root, []⟩ searching.settings.overrideName
      ⟨.root, [".htmlTidy"]⟩ ∧
    searching.directoryFor (optionsHost [0xff]) (some ⟨.root, ["a.html"]⟩) =
      .ok (some ⟨.root, []⟩) ∧
    (searching.optionsFor (optionsHost [0xff]) (some ⟨.root, ["a.html"]⟩)).value.1 =
      .error (.undecodable ⟨0xff, 0, 1, .invalidStart⟩) := by
  have hnearest : IsNearest (optionsHost [0xff]) ⟨.root, []⟩ searching.settings.overrideName
      ⟨.root, [".htmlTidy"]⟩ := optionsHost.isNearest_options [0xff]
  have hdecode : Text.Utf8.decode [0xff] = .error ⟨0xff, 0, 1, .invalidStart⟩ := by
    simp [Text.Utf8.decode, Text.Utf8.decodeAfter, Text.Utf8.nextHead, Text.Utf8.announced]
  have hover : Overwhelms (optionsHost [0xff]) ⟨.root, [".htmlTidy"]⟩ _ :=
    .undecodable [0xff] _ (optionsHost.readOctets_options [0xff]) hdecode
  have hkept : searching.kept.lookup (some ⟨.root, []⟩) = none := rfl
  refine ⟨rfl, hnearest, directoryFor_page _ _, ?_⟩
  rw [value_optionsFor (directoryFor_page _ _), hkept, Resolved.value_find_nearest rfl hnearest,
    Resolved.value_ofFile_overwhelms _ hover]

end Resolver

end MarkupTidy
