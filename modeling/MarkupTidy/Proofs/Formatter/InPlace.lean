import MarkupTidy.Proofs.Files.Overwritten
import MarkupTidy.Proofs.Formatter.Escapes
import MarkupTidy.Proofs.Formatter.Request

/-!
A format request for a file on the host where the file lies. The host stays as it is, unless the
request is formatted; then the file has the output of the run, and the host is the same otherwise.
-/
namespace MarkupTidy.Formatter

/-- A request for a buffer leaves the host as it is. -/
theorem host_format_buffer (host : Host) (f : Formatter) (text : String) (path : Option Path)
    (readOnly : Bool) :
    (f.format host (.buffer text path readOnly)).value.1.2.host = host := by
  have hset : ∀ text', ((Document.buffer text path readOnly).setText host text').2.host = host := by
    intro text'
    cases readOnly <;> rfl
  rw [value_format_beginRequest]
  cases (f.beginRequest host (.buffer text path readOnly)).value.1 with
  | settled outcome => rfl
  | raised fault => rfl
  | running job =>
    simp only [resultOf, changed_finishRequest, changedBy]
    cases applied? job with
    | none => rfl
    | some execution => exact hset execution.output

/-- A request that runs has read its file. -/
theorem stat_of_running {host : Host} {f : Formatter} {path : Path} {job : Job}
    (h : (f.beginRequest host (.file path)).value.1 = .running job) :
    ∃ place file, host.stat path.text = .ok (place, .file file) := by
  simp only [beginRequest, readDocument, Document.text, Host.readText, Logged.value_bind] at h
  cases hoctets : host.readOctets path with
  | ok octets =>
    unfold Host.readOctets at hoctets
    cases hstat : host.stat path.text with
    | error fault =>
      rw [hstat] at hoctets
      cases hoctets
    | ok found =>
      obtain ⟨place, node⟩ := found
      rw [hstat] at hoctets
      cases node with
      | file file => exact ⟨place, file, rfl⟩
      | directory | link target => cases hoctets
  | error fault =>
    rw [hoctets] at h
    simp only [bind, Except.bind] at h
    cases hunreadable : isUnreadable fault <;> rw [hunreadable] at h <;> cases h

/-- A request gives a file on its host octets: it is formatted, and these are its run's output. -/
def GivesOctets (host : Host) (f : Formatter) (path : Path) (octets : Text.Utf8.Octets) : Prop :=
  ∃ execution messages,
    (f.format host (.file path)).value.1.1 = .ok ⟨.formatted, some execution, messages⟩ ∧
    octets = Text.Utf8.encode execution.output.toList

/-- A request that finishes leaves the host, or is formatted and gives the file its run's output. -/
theorem finishRequest_file {host : Host} {path : Path} {place : Location} {file : File}
    (hanchor : path.anchor ≠ .none) (hlink : host.tree.linkAt? host.directory path = none)
    (hstat : host.stat path.text = .ok (place, .file file)) (job : Job) :
    (finishRequest host job (.file path)).value.2.host = host ∨
    ∃ execution messages,
      (finishRequest host job (.file path)).value.1 =
        .ok ⟨.formatted, some execution, messages⟩ ∧
      (finishRequest host job (.file path)).value.2.host = host.withTree (host.tree.set place
        (.file ⟨Text.Utf8.encode execution.output.toList, file.mode, none⟩)) := by
  simp only [finishRequest, Logged.value_bind]
  cases (Runner.conclude job.launched (job.settings.timeout.map Subtype.val)).value with
  | error fault => exact Or.inl rfl
  | ok execution =>
    cases hhindrance : hindrance? job.settings execution with
    | some hindrance =>
      simp only [settle, hhindrance]
      exact Or.inl rfl
    | none =>
      simp only [settle, hhindrance, apply, Document.setText]
      rcases Host.overwriteFile_cases hanchor hlink hstat
          (Text.Utf8.encode execution.output.toList) with ⟨fault, hfailed⟩ | hdone
      · rw [hfailed]
        cases fault <;> exact Or.inl rfl
      · rw [hdone]
        exact Or.inr ⟨execution, _, rfl, rfl⟩

/-- A request for a file that no link stands for leaves the host, or gives this file octets. -/
theorem format_file_cases (host : Host) (f : Formatter) {path : Path}
    (hanchor : path.anchor ≠ .none) (hlink : host.tree.linkAt? host.directory path = none) :
    (f.format host (.file path)).value.1.2.host = host ∨
    ∃ octets place file, GivesOctets host f path octets ∧
      host.stat path.text = .ok (place, .file file) ∧
      (f.format host (.file path)).value.1.2.host =
        host.withTree (host.tree.set place (.file ⟨octets, file.mode, none⟩)) := by
  unfold GivesOctets
  rw [value_format_beginRequest]
  cases hbegun : (f.beginRequest host (.file path)).value.1 with
  | settled outcome => exact Or.inl rfl
  | raised fault => exact Or.inl rfl
  | running job =>
    obtain ⟨place, file, hstat⟩ := stat_of_running hbegun
    rcases finishRequest_file hanchor hlink hstat job with hkept |
      ⟨execution, messages, hformatted, hhost⟩
    · exact Or.inl hkept
    · exact Or.inr ⟨_, place, file, ⟨execution, messages, hformatted, rfl⟩, hstat, hhost⟩

end MarkupTidy.Formatter
