import MarkupTidy.Proofs.Json.Objects
import MarkupTidy.Resolver

/-!
Override files. The nearest one lies in the first directory, from the wanted one upward, that has a
file of the name. What it holds is taken if it is an option map. A file that cannot be read or holds
something else is passed over; only octets that are no text, a number of too many digits and nesting
that is too deep are faults that leave the search.
-/
namespace MarkupTidy.Host

/-- A file that was found can be opened, or is refused by the system. -/
theorem readOctets_of_isFile? {host : Host} {file : Path} (h : host.isFile? file = .ok true) :
    (∃ octets, host.readOctets file = .ok octets) ∨
      ∃ refused, host.readOctets file = .error (.refused refused) := by
  simp only [isFile?, look] at h
  unfold readOctets
  cases hstat : host.stat file.text with
  | error fault =>
    simp only [hstat] at h
    split at h <;> simp [Except.map] at h
  | ok found =>
    obtain ⟨place, node⟩ := found
    cases node with
    | file content =>
      simp only
      split
      · exact Or.inl ⟨_, rfl⟩
      · exact Or.inr ⟨_, rfl⟩
    | _ => simp [hstat, Except.map] at h

end MarkupTidy.Host

namespace MarkupTidy.Override

/-- Where an override file lies in a directory. -/
def candidate (name : String) (directory : Path) : Path := directory.join (Path.ofText name)

/-- No directory from the start upward has a file of the name. -/
def IsAbsent (host : Host) (start : Path) (name : String) : Prop :=
  ∃ top, host.resolve start = .ok top ∧
    ∀ directory ∈ top.upward, host.isFile? (candidate name directory) = .ok false

/-- The file lies in the first directory from the start upward that has one of the name. -/
def IsNearest (host : Host) (start : Path) (name : String) (file : Path) : Prop :=
  ∃ top nearer directory farther, host.resolve start = .ok top ∧
    top.upward = nearer ++ directory :: farther ∧
    (∀ other ∈ nearer, host.isFile? (candidate name other) = .ok false) ∧
    host.isFile? (candidate name directory) = .ok true ∧ file = candidate name directory

theorem IsNearest.isFile {host : Host} {start file : Path} {name : String}
    (h : IsNearest host start name file) : host.isFile? file = .ok true := by
  obtain ⟨top, nearer, directory, farther, -, -, -, hfile, rfl⟩ := h
  exact hfile

theorem findIn_cons (host : Host) (name : String) (directory : Path) (rest : List Path) :
    findIn host name (directory :: rest) =
      match host.isFile? (candidate name directory) with
      | .error fault => .error fault
      | .ok true => .ok (some (candidate name directory))
      | .ok false => findIn host name rest := by
  simp only [findIn, candidate, bind, Except.bind]
  cases host.isFile? (directory.join (Path.ofText name)) with
  | error fault => rfl
  | ok isFile => cases isFile <;> rfl

theorem findIn_eq_none_iff (host : Host) (name : String) (directories : List Path) :
    findIn host name directories = .ok none ↔
      ∀ directory ∈ directories, host.isFile? (candidate name directory) = .ok false := by
  induction directories with
  | nil => simp [findIn]
  | cons directory rest ih =>
    rw [findIn_cons, List.forall_mem_cons, ← ih]
    cases host.isFile? (candidate name directory) with
    | error fault => simp
    | ok isFile => cases isFile <;> simp

theorem findIn_eq_some_iff (host : Host) (name : String) (directories : List Path) (file : Path) :
    findIn host name directories = .ok (some file) ↔
      ∃ nearer directory farther, directories = nearer ++ directory :: farther ∧
        (∀ other ∈ nearer, host.isFile? (candidate name other) = .ok false) ∧
        host.isFile? (candidate name directory) = .ok true ∧ file = candidate name directory := by
  induction directories with
  | nil => simp [findIn]
  | cons first rest ih =>
    rw [findIn_cons]
    constructor
    · intro h
      cases hfirst : host.isFile? (candidate name first) with
      | error fault => simp [hfirst] at h
      | ok isFile =>
        cases isFile with
        | true =>
          simp only [hfirst, Except.ok.injEq, Option.some.injEq] at h
          exact ⟨[], first, rest, rfl, by simp, hfirst, h.symm⟩
        | false =>
          simp only [hfirst] at h
          obtain ⟨nearer, directory, farther, rfl, hnearer, hfound⟩ := ih.mp h
          exact ⟨first :: nearer, directory, farther, rfl,
            List.forall_mem_cons.mpr ⟨hfirst, hnearer⟩, hfound⟩
    · rintro ⟨nearer, directory, farther, hsplit, hnearer, hfound, rfl⟩
      cases nearer with
      | nil =>
        cases hsplit
        simp [hfound]
      | cons other nearer =>
        cases hsplit
        obtain ⟨hfirst, hnearer⟩ := List.forall_mem_cons.mp hnearer
        simp only [hfirst]
        exact ih.mpr ⟨nearer, directory, farther, rfl, hnearer, hfound, rfl⟩

theorem find_eq_none_iff (host : Host) (start : Path) (name : String) :
    find host start name = .ok none ↔ IsAbsent host start name := by
  simp only [find, IsAbsent, bind, Except.bind]
  cases host.resolve start with
  | error fault => simp
  | ok top => simp [findIn_eq_none_iff]

theorem find_eq_some_iff (host : Host) (start : Path) (name : String) (file : Path) :
    find host start name = .ok (some file) ↔ IsNearest host start name file := by
  simp only [find, IsNearest, bind, Except.bind]
  cases host.resolve start with
  | error fault => simp
  | ok top => simp [findIn_eq_some_iff]

/-- The text of the file is a JSON object with the entries of the option map. -/
def Holds (host : Host) (file : Path) (options : OptionMap) : Prop :=
  ∃ text, host.readText file = .ok text ∧ Json.read text = .ok (.table options.entries)

/-- The file cannot be read, or its text is no JSON object. -/
inductive IsRejected (host : Host) (file : Path) : Prop
  | unreadable (refused : Refused) (hread : host.readOctets file = .error (.refused refused))
  | malformed (text : String) (problem : Json.Problem) (place : Text.Place)
    (hread : host.readText file = .ok text)
    (hjson : Json.read text = .error (.malformed problem place))
  | noObject (text : String) (value : Value) (hread : host.readText file = .ok text)
    (hjson : Json.read text = .ok value) (hvalue : ∀ entries, value ≠ .table entries)

/-- What the file holds is no text, or JSON beyond the limits of its reader. -/
inductive Overwhelms (host : Host) (file : Path) : Fault → Prop
  | undecodable (octets : Text.Utf8.Octets) (cause : Text.Utf8.Fault)
    (hread : host.readOctets file = .ok octets)
    (hdecode : Text.Utf8.decode octets = .error cause) :
    Overwhelms host file (.undecodable cause)
  | numeral (text : String) (digits : Nat) (hread : host.readText file = .ok text)
    (hjson : Json.read text = .error (.tooManyDigits digits)) :
    Overwhelms host file (.numeralTooLong digits)
  | depth (text : String) (container : Json.Container) (hread : host.readText file = .ok text)
    (hjson : Json.read text = .error (.tooDeep container)) :
    Overwhelms host file (.tooDeep (some container))

/-- A file that was found holds an option map, is passed over or is too much for its readers. -/
theorem content_cases {host : Host} {file : Path} (hfile : host.isFile? file = .ok true) :
    (∃ options, Holds host file options) ∨ IsRejected host file ∨
      ∃ fault, Overwhelms host file fault := by
  rcases Host.readOctets_of_isFile? hfile with ⟨octets, hoctets⟩ | ⟨refused, hrefused⟩
  · cases hdecode : Text.Utf8.decode octets with
    | error cause => exact Or.inr (Or.inr ⟨_, .undecodable octets cause hoctets hdecode⟩)
    | ok decoded =>
      have hread : host.readText file = .ok (String.ofList (Text.normalizeNewlines decoded)) := by
        simp [Host.readText, hoctets, Host.decodeText, hdecode, bind, Except.bind]
      cases hjson : Json.read (String.ofList (Text.normalizeNewlines decoded)) with
      | error fault =>
        cases fault with
        | malformed problem place => exact Or.inr (Or.inl (.malformed _ problem place hread hjson))
        | tooManyDigits digits => exact Or.inr (Or.inr ⟨_, .numeral _ digits hread hjson⟩)
        | tooDeep container => exact Or.inr (Or.inr ⟨_, .depth _ container hread hjson⟩)
      | ok value =>
        cases value with
        | table entries => exact Or.inl ⟨⟨entries, Json.nodup_read hjson⟩, _, hread, hjson⟩
        | _ => exact Or.inr (Or.inl (.noObject _ _ hread hjson (by simp)))
  · exact Or.inr (Or.inl (.unreadable refused hrefused))

end MarkupTidy.Override

namespace MarkupTidy.Resolved

open Override

theorem value_ofFile (host : Host) (settings : Settings) (file : Path) :
    (ofFile host settings file).value =
      match host.readText file >>= fun text => Override.parse text (some file.text) with
      | .ok options => .ok ⟨options, some file, []⟩
      | .error fault =>
        if isPassedOver fault then .ok ⟨settings.options, none, [passedOverWarning file]⟩
        else .error fault := by
  unfold ofFile
  cases host.readText file >>= fun text => Override.parse text (some file.text) with
  | ok options => rfl
  | error fault => cases hover : isPassedOver fault <;> simp [hover]

theorem value_ofFile_holds {host : Host} {file : Path} {options : OptionMap}
    (settings : Settings) (h : Holds host file options) :
    (ofFile host settings file).value = .ok ⟨options, some file, []⟩ := by
  obtain ⟨text, hread, hjson⟩ := h
  have hentries : OptionMap.ofPairs options.entries = options := by
    cases options with
    | mk entries distinct => simp only [OptionMap.ofPairs, Pairs.collect_of_nodup distinct]
  rw [value_ofFile, hread]
  simp only [bind, Except.bind, Override.parse, hjson, hentries]

theorem value_ofFile_rejected {host : Host} {file : Path} (settings : Settings)
    (h : IsRejected host file) :
    (ofFile host settings file).value =
      .ok ⟨settings.options, none, [passedOverWarning file]⟩ := by
  rw [value_ofFile]
  cases h with
  | unreadable refused hread =>
    simp [Host.readText, hread, bind, Except.bind, isPassedOver]
  | malformed text problem place hread hjson =>
    simp [hread, bind, Except.bind, Override.parse, hjson, ofJsonFault, isPassedOver]
  | noObject text value hread hjson hvalue =>
    rw [hread]
    simp only [bind, Except.bind, Override.parse, hjson]
    cases value with
    | table entries => exact absurd rfl (hvalue entries)
    | _ => rfl

theorem value_ofFile_overwhelms {host : Host} {file : Path} {fault : Fault}
    (settings : Settings) (h : Overwhelms host file fault) :
    (ofFile host settings file).value = .error fault := by
  rw [value_ofFile]
  cases h with
  | undecodable octets cause hread hdecode =>
    simp [Host.readText, hread, Host.decodeText, hdecode, bind, Except.bind, isPassedOver]
  | numeral text digits hread hjson =>
    simp [hread, bind, Except.bind, Override.parse, hjson, ofJsonFault, isPassedOver]
  | depth text container hread hjson =>
    simp [hread, bind, Except.bind, Override.parse, hjson, ofJsonFault, isPassedOver]

/-- An option map is never too much for its readers. -/
theorem not_overwhelms_of_holds {host : Host} {file : Path} {options : OptionMap}
    (h : Holds host file options) : ¬ ∃ fault, Overwhelms host file fault := by
  rintro ⟨fault, hover⟩
  have hvalue := value_ofFile_holds default h
  rw [value_ofFile_overwhelms default hover] at hvalue
  cases hvalue

end MarkupTidy.Resolved
