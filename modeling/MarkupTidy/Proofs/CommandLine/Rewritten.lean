import MarkupTidy.Proofs.CommandLine.Turns
import MarkupTidy.Proofs.Formatter.InPlace

/-!
Formatting files in place. Each turn leaves the host or gives the file at the end of its path other
octets; since no path leads another way for that, the turns together change just such files.
-/
namespace MarkupTidy.CommandLine

open Formatter

/-- A file was formatted when its turn came, and got these octets. -/
def Turn.Gives (turn : Turn) (octets : Text.Utf8.Octets) : Prop :=
  GivesOctets turn.host turn.formatter turn.path octets

/-- The hosts differ in the octets of files alone. A file with other octets lies at the end of a
path whose turn has given it these octets, and has its old permission bits. -/
structure RewritesFormatted (host : Host) (turns : List Turn) (host' : Host) : Prop where
  tree : host' = host.withTree host'.tree
  places : ∀ place, host'.tree.node? place = host.tree.node? place ∨
    ∃ turn ∈ turns, ∃ file octets, host.stat turn.path.text = .ok (place, .file file) ∧
      turn.Gives octets ∧ host'.tree.node? place = some (.file ⟨octets, file.mode, none⟩)

/-- A path that leads to a file has led to a file with the same permission bits before another one
was rewritten. -/
theorem stat_before_rewrite {host : Host} {text : String} {place rewritten : Location}
    {file before : File} (octets : Text.Utf8.Octets)
    (hbefore : host.tree.node? rewritten = some (.file before))
    (hstat : (host.withTree (host.tree.set rewritten
      (.file ⟨octets, before.mode, none⟩))).stat text = .ok (place, .file file)) :
    ∃ earlier, host.stat text = .ok (place, .file earlier) ∧ earlier.mode = file.mode := by
  have hsame := FileTree.SameButFiles.set_file hbefore ⟨octets, before.mode, none⟩
  obtain ⟨earlier, hback⟩ := Host.stat_file hsame.symm hstat
  have hearlier : host.stat text = .ok (place, .file earlier) := hback
  refine ⟨earlier, hearlier, ?_⟩
  have hnode := Host.node?_of_stat hearlier
  have hnode' : (host.tree.set rewritten (.file ⟨octets, before.mode, none⟩)).node? place =
      some (.file file) := Host.node?_of_stat hstat
  by_cases hplace : place = rewritten
  · subst hplace
    have hroot : place ≠ [] := FileTree.ne_nil_of_node? (by rw [hbefore]; rfl)
    rw [FileTree.node?_set_self _ hroot] at hnode'
    rw [hbefore] at hnode
    cases hnode
    cases hnode'
    rfl
  · rw [FileTree.node?_set_ne _ hplace, hnode] at hnode'
    cases hnode'
    rfl

namespace RewritesFormatted

variable {host host' : Host} {turn : Turn} {rest : List Turn}

theorem refl (host : Host) (turns : List Turn) : RewritesFormatted host turns host :=
  ⟨rfl, fun _ => Or.inl rfl⟩

/-- A turn may leave everything as it is. -/
theorem cons (h : RewritesFormatted host rest host') :
    RewritesFormatted host (turn :: rest) host' := by
  refine ⟨h.tree, fun place => (h.places place).imp_right ?_⟩
  rintro ⟨later, hlater, hfile⟩
  exact ⟨later, List.mem_cons_of_mem _ hlater, hfile⟩

/-- A turn gives its file octets, which stand there in the end if no later turn rewrites it. -/
theorem rewrite {octets : Text.Utf8.Octets} {place : Location} {file : File}
    (hgives : turn.Gives octets) (hstat : host.stat turn.path.text = .ok (place, .file file))
    (h : RewritesFormatted (host.withTree (host.tree.set place
      (.file ⟨octets, file.mode, none⟩))) rest host') :
    RewritesFormatted host (turn :: rest) host' := by
  have hbefore := Host.node?_of_stat hstat
  have hroot : place ≠ [] := FileTree.ne_nil_of_node? (by rw [hbefore]; rfl)
  refine ⟨h.tree, fun other => ?_⟩
  rcases h.places other with hkept | ⟨later, hlater, earlier, given, hpath, hgiven, hnode⟩
  · by_cases hother : other = place
    · subst hother
      refine Or.inr ⟨turn, List.mem_cons_self, file, octets, hstat, hgives, ?_⟩
      exact hkept.trans (FileTree.node?_set_self _ hroot)
    · exact Or.inl (hkept.trans (FileTree.node?_set_ne _ hother))
  · obtain ⟨first, hfirst, hmode⟩ := stat_before_rewrite octets hbefore hpath
    exact Or.inr ⟨later, List.mem_cons_of_mem _ hlater, first, given, hfirst, hgiven,
      hmode ▸ hnode⟩

end RewritesFormatted

theorem host_formatDocument (host : Host) (f : Formatter) (path : Path) (document : Document) :
    (formatDocument host f path document).host = (f.format host document).value.1.2.host := by
  simp only [formatDocument]
  cases (f.format host document).value.1.1 <;> rfl

/-- A file that is formatted to be printed leaves the host as it is. -/
theorem host_formatFile_printed (host : Host) (f : Formatter) (path : Path) :
    (formatFile false host f path).host = host := by
  unfold formatFile ifPresent
  cases host.exists? path with
  | error fault => rfl
  | ok there =>
    cases there with
    | false => rfl
    | true =>
      simp only [Bool.false_eq_true, if_false, onText]
      cases host.readText path with
      | ok text => rw [host_formatDocument, host_format_buffer]
      | error fault =>
        dsimp only
        split <;> rfl

/-- A file that is formatted in place leaves the host, or gives this file octets. -/
theorem host_formatFile_cases (host : Host) (f : Formatter) {path : Path}
    (hanchor : path.anchor ≠ .none) (hlink : host.tree.linkAt? host.directory path = none) :
    (formatFile true host f path).host = host ∨
    ∃ octets place file, GivesOctets host f path octets ∧
      host.stat path.text = .ok (place, .file file) ∧
      (formatFile true host f path).host =
        host.withTree (host.tree.set place (.file ⟨octets, file.mode, none⟩)) := by
  unfold formatFile ifPresent
  cases host.exists? path with
  | error fault => exact Or.inl rfl
  | ok there =>
    cases there with
    | false => exact Or.inl rfl
    | true =>
      simp only [if_true, host_formatDocument]
      exact format_file_cases host f hanchor hlink

/-- The path that a file was given by names no link. -/
structure NamesNoLink (host : Host) (path : Path) : Prop where
  anchored : path.anchor ≠ .none
  linkFree : host.tree.linkAt? host.directory path = none

/-- Formatting files in place rewrites those that are formatted, and changes nothing else. -/
theorem onFiles_rewrites {host : Host} (f : Formatter) {files : List Path}
    (h : ∀ path ∈ files, NamesNoLink host path) :
    RewritesFormatted host (turns (formatFile true) host f files)
      (onFiles (formatFile true) host f files).host := by
  induction files generalizing host f with
  | nil => exact .refl host _
  | cons path rest ih =>
    obtain ⟨hpath, hrest⟩ := List.forall_mem_cons.1 h
    rw [host_onFiles_cons, turns]
    rcases host_formatFile_cases host f hpath.anchored hpath.linkFree with hkept |
      ⟨octets, place, file, hgives, hstat, hset⟩
    · rw [hkept]
      cases (formatFile true host f path).success with
      | error fault => exact .refl host _
      | ok success => exact (ih _ hrest).cons
    · rw [hset]
      refine RewritesFormatted.rewrite hgives hstat ?_
      cases (formatFile true host f path).success with
      | error fault => exact .refl _ _
      | ok success =>
        refine ih _ fun later hlater => ⟨(hrest later hlater).anchored, ?_⟩
        have hsame := FileTree.SameButFiles.set_file (Host.node?_of_stat hstat)
          ⟨octets, file.mode, none⟩
        exact (hsame.linkAt?_eq host.directory later).trans (hrest later hlater).linkFree

end MarkupTidy.CommandLine
