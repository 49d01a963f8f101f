import MarkupTidy.Proofs.Formatter.Escapes
import MarkupTidy.Proofs.Formatter.Request
import MarkupTidy.Proofs.Formatter.Telling

/-!
Requests without their messages. A formatter tells the user once that the engine it was given is
missing; but for that, what it found on a host before makes no difference to a request there.
-/
namespace MarkupTidy

/-- The outcome without what it tells the user. -/
def Outcome.silent (outcome : Outcome) : Outcome := { outcome with messages := [] }

def Job.silent (job : Job) : Job := { job with messages := [] }

def Begun.silent : Begun → Begun
  | .settled outcome => .settled outcome.silent
  | .raised fault => .raised fault
  | .running job => .running job.silent

/-- A result and a changed document, without what the result tells the user. -/
def Formatter.Finished.silent (finished : Formatter.Finished) : Formatter.Finished :=
  (finished.1.map Outcome.silent, finished.2)

namespace Formatter

/-- The preparation without the warnings of the search for an engine and for options. -/
def Prepared.silent : Prepared → Prepared
  | .missing _ => .missing []
  | .ready executable options _ text => .ready executable options [] text
  | prepared => prepared

theorem Finished.silent_telling (told : List String) (finished : Finished) :
    Finished.silent (Finished.telling told finished) = Finished.silent finished := by
  obtain ⟨result, changed⟩ := finished
  cases result <;> rfl

theorem silent_begun_telling (told : List String) (begun : Begun) :
    (begun.telling told).silent = begun.silent := by
  cases begun <;> rfl

/-- What a format request makes of its preparation does not depend on the warnings in it. -/
theorem silent_format (host : Host) (settings : Settings) (prepared : Prepared) :
    (prepared.format host settings).silent = (prepared.silent.format host settings).silent := by
  cases prepared with
  | raised fault | unreadable message | empty | missing messages => rfl
  | ready executable options messages text =>
    have htelling : Prepared.ready executable options messages text =
        (Prepared.ready executable options messages text).silent.telling messages := by
      simp [Prepared.silent, Prepared.telling]
    have hgone : (Prepared.ready executable options messages text).silent.HasGoneOn := trivial
    rw [htelling, Prepared.format_telling hgone, silent_begun_telling]
    rfl

theorem silent_finishRequest (host : Host) (job : Job) (document : Document) :
    Finished.silent (finishRequest host job document).value =
      Finished.silent (finishRequest host job.silent document).value := by
  have htelling : job.silent.telling job.messages = job := by simp [Job.silent, Job.telling]
  rw [← htelling, finishRequest_telling, Finished.silent_telling]
  rfl

theorem silent_resultOf (host : Host) (document : Document) (begun : Begun) :
    Finished.silent (resultOf host document begun) =
      Finished.silent (resultOf host document begun.silent) := by
  cases begun with
  | settled outcome => rfl
  | raised fault => rfl
  | running job => exact silent_finishRequest host job document

section Current

variable {host : Host} {edition : Edition} {f g : Formatter}

/-- Two formatters that found what they hold on this host prepare a request alike. -/
theorem IsCurrent.silent_prepare (hf : IsCurrent (· = host) edition f)
    (hg : IsCurrent (· = host) edition g) {document : Document} {path : Path}
    (hpath : document.path? = some path) :
    (f.prepare host document).silent = (g.prepare host document).silent := by
  have hengine := hf.path_eq hg
  have hoptions := hf.options_eq hg path
  unfold Formatter.prepare
  rw [hpath, hoptions, hf.settings, hg.settings]
  unfold prepareBy
  rcases (readDocument host document).value with fault | message | text
  · rfl
  · rfl
  · dsimp only
    split
    · rfl
    · rw [hengine]
      cases (g.findEngine host).value.1.path with
      | none => rfl
      | some executable =>
        cases (g.resolver.optionsFor host (some path)).value.1 with
        | error fault => rfl
        | ok resolved =>
          dsimp only
          cases DerivedOptions.derive text resolved.options edition.settings <;> rfl

/-- Two formatters that found what they hold on this host format a document alike. -/
theorem IsCurrent.silent_format (hf : IsCurrent (· = host) edition f)
    (hg : IsCurrent (· = host) edition g) {document : Document} {path : Path}
    (hpath : document.path? = some path) :
    Finished.silent (f.format host document).value.1 =
      Finished.silent (g.format host document).value.1 := by
  have hprepared := hf.silent_prepare hg hpath
  have hbegun : ∀ {f : Formatter}, IsCurrent (· = host) edition f →
      (f.beginRequest host document).value.1.silent =
        ((f.prepare host document).silent.format host edition.settings).silent := by
    intro f hf
    rw [(beginRequest_prepare host f document).1, hf.settings, Formatter.silent_format]
  rw [value_format_beginRequest, value_format_beginRequest, silent_resultOf, hbegun hf, hprepared,
    ← hbegun hg, ← silent_resultOf]

end Current

end Formatter

end MarkupTidy
