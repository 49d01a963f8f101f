import MarkupTidy.Document
import MarkupTidy.Proofs.Files.MadeDirectories
import MarkupTidy.Proofs.Files.PathSteps
import MarkupTidy.Proofs.Files.RootFiles
import MarkupTidy.Proofs.Text.Utf8

/-!
Documents on the host that are given a text and read again. The file is replaced, with its
permission bits, and nothing else changes; a link to it is replaced itself. The text is written as
it is, but a file is read with line feeds for all its line ends, so a carriage return does not come
back.
-/
namespace MarkupTidy

namespace Host

open FileTree

/-- Overwriting a file puts the new content at the end of its path, with the permission bits of the
file that the path led to, and the path leads there. -/
theorem overwriteFile_eq_ok {host host' : Host} {path : Path} (hproper : path.IsProper)
    {place : Location} {file : File} (hstat : host.stat path.text = .ok (place, .file file))
    {octets : Text.Utf8.Octets} (h : host.overwriteFile path octets = (.ok ⟨⟩, host')) :
    ∃ last, host.walk .link path.text = .ok (host.tree.foundAt last) ∧
      (host.tree.node? last).any Node.isDirectory = false ∧
      host' = host.withTree (host.tree.set last (.file ⟨octets, file.mode, none⟩)) ∧
      host'.stat path.text = .ok (last, .file ⟨octets, file.mode, none⟩) := by
  unfold overwriteFile at h
  rw [hstat] at h
  obtain ⟨between, -, ⟨fault, hreplaced⟩ | ⟨-, rfl, last, ⟨hparts, hname⟩, hreach, hfree,
    hreplaced⟩⟩ := replaceFile_cases host path octets
  · rw [hreplaced] at h
    cases h
  · rw [hreplaced] at h
    rw [makeDirectories_of_goesBy (hproper.goesBy_parent hparts) hstat] at h hreach hfree
    have hends := hproper.endsInName hparts hname
    dsimp only at h hreach hfree
    by_cases hway : host.LeadsThroughItself path
    · obtain ⟨fault, hgone⟩ := stat_set_itself hends hreach hway ⟨octets, privateMode, none⟩
      rw [setMode, hgone] at h
      cases h
    · rw [setMode_set (stat_set_end hends hreach hfree hway _)] at h
      cases h
      exact ⟨last, (reach_iff_walk.1 hreach).2, hfree, rfl,
        stat_set_end hends hreach hfree hway _⟩

end Host

namespace Document

/-- What is read of a file with a text in it: its lines, if its owner may read them. -/
theorem text_of_stat {host : Host} {path : Path} {place : Location} {text : String} {mode : Nat}
    (hstat : host.stat path.text =
      .ok (place, .file ⟨Text.Utf8.encode text.toList, mode, none⟩)) :
    (file path).text host =
      if (File.mk (Text.Utf8.encode text.toList) mode none).isReadable then
        .ok (String.ofList (Text.normalizeNewlines text.toList))
      else .error (.refused ⟨.denied, [path.text]⟩) := by
  simp only [Document.text, Host.readText, Host.readOctets, hstat]
  split
  · simp only [bind, Except.bind, Host.decodeText, Text.Utf8.decode_encode]
  · rfl

theorem setText_file {host host' : Host} {path : Path} {text : String} {document : Document}
    (h : (file path).setText host text = (.ok ⟨⟩, ⟨host', document⟩)) :
    document = file path ∧
      host.overwriteFile path (Text.Utf8.encode text.toList) = (.ok ⟨⟩, host') := by
  simp only [setText] at h
  cases hwrite : host.overwriteFile path (Text.Utf8.encode text.toList) with
  | mk result left =>
    rw [hwrite] at h
    cases h
    exact ⟨rfl, rfl⟩

/-- After a file document was given a text, the path leads to a file with this text and with the
permission bits of the file that was there, and nothing else has changed. What is read then is the
text with line feeds for its line ends, so exactly the text if the owner may read the file and there
is no carriage return in the text. -/
theorem setText_then_text {host : Host} {given text : String} {place : Location} {earlier : File}
    {changed : Changed} (hstat : host.stat (Path.ofText given).text = .ok (place, .file earlier))
    (hset : (file (.ofText given)).setText host text = (.ok ⟨⟩, changed)) :
    ∃ last, host.walk .link (Path.ofText given).text = .ok (host.tree.foundAt last) ∧
      changed = ⟨host.withTree (host.tree.set last
        (.file ⟨Text.Utf8.encode text.toList, earlier.mode, none⟩)), file (.ofText given)⟩ ∧
      changed.host.stat (Path.ofText given).text =
        .ok (last, .file ⟨Text.Utf8.encode text.toList, earlier.mode, none⟩) ∧
      (∀ other, other ≠ last → changed.host.tree.node? other = host.tree.node? other) ∧
      (earlier.isReadable = true → changed.document.text changed.host =
        .ok (String.ofList (Text.normalizeNewlines text.toList))) ∧
      (changed.document.text changed.host = .ok text ↔
        earlier.isReadable = true ∧ '\r' ∉ text.toList) := by
  obtain ⟨host', document⟩ := changed
  obtain ⟨rfl, hwrite⟩ := setText_file hset
  obtain ⟨last, hway, -, rfl, hthere⟩ :=
    Host.overwriteFile_eq_ok (Path.isProper_ofText given) hstat hwrite
  have htext := text_of_stat hthere
  have hmode : (File.mk (Text.Utf8.encode text.toList) earlier.mode none).isReadable =
      earlier.isReadable := rfl
  rw [hmode] at htext
  refine ⟨last, hway, rfl, hthere, fun other hother => FileTree.node?_set_ne _ hother,
    fun hreadable => by rw [htext, if_pos hreadable], ?_⟩
  rw [htext]
  cases earlier.isReadable with
  | false => simp
  | true =>
    rw [if_pos rfl, Except.ok.injEq, ← String.toList_inj, String.toList_ofList,
      Text.normalizeNewlines_eq_self_iff]
    simp

/-- A page in the root that its group may read. -/
def pageHost : Host where
  tree := ⟨[(["page.html"], .file ⟨[], 0o640, none⟩)]⟩
  directory := []
  searchPath := ""

theorem stat_page : pageHost.stat (Path.ofText "/page.html").text =
    .ok (["page.html"], .file ⟨[], 0o640, none⟩) := by
  have hplain : IsPlainName "page.html" := by decide
  exact hplain.stat_eq rfl nofun

theorem setText_page (text : String) :
    (file (.ofText "/page.html")).setText pageHost text =
      (.ok ⟨⟩, ⟨pageHost.withTree (pageHost.tree.set ["page.html"]
        (.file ⟨Text.Utf8.encode text.toList, 0o640, none⟩)), file (.ofText "/page.html")⟩) := by
  have hplain : IsPlainName "page.html" := by decide
  have hpath : Path.ofText "/page.html" = .ofParts ["page.html"] := by decide
  have hmay : pageHost.MayReplace (.ofParts ["page.html"]) := ⟨fun _ => rfl, by decide, by rfl⟩
  have hstat := stat_page
  rw [hpath] at hstat
  rw [hpath, setText, hplain.overwriteFile_eq rfl hstat hmay]

/-- A text of one line is read as it was written. -/
theorem setText_then_text_page :
    ∃ changed, (file (.ofText "/page.html")).setText pageHost "<p>" = (.ok ⟨⟩, changed) ∧
      changed.document.text changed.host = .ok "<p>" := by
  obtain ⟨last, -, -, -, -, -, hsame⟩ := setText_then_text stat_page (setText_page "<p>")
  exact ⟨_, setText_page "<p>", hsame.2 (by decide)⟩

/-- A carriage return in a text is not read again. -/
theorem carriage_return_is_lost :
    ∃ changed, (file (.ofText "/page.html")).setText pageHost "a\r\nb" = (.ok ⟨⟩, changed) ∧
      changed.document.text changed.host = .ok "a\nb" := by
  have hplain : IsPlainName "page.html" := by decide
  have hthere : (pageHost.withTree (pageHost.tree.set ["page.html"]
      (.file ⟨Text.Utf8.encode "a\r\nb".toList, 0o640, none⟩))).stat
        (Path.ofText "/page.html").text =
      .ok (["page.html"], .file ⟨Text.Utf8.encode "a\r\nb".toList, 0o640, none⟩) :=
    hplain.stat_eq (FileTree.node?_set_self _ (List.cons_ne_nil _ _)) nofun
  have hread : Text.normalizeNewlines "a\r\nb".toList = "a\nb".toList := by decide
  refine ⟨_, setText_page "a\r\nb", ?_⟩
  rw [text_of_stat hthere, if_pos (by decide), hread, String.ofList_toList]

end Document

end MarkupTidy
