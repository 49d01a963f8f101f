import MarkupTidy.Proofs.Files.MadeDirectories
import MarkupTidy.Proofs.Files.PathSteps
import MarkupTidy.Proofs.Files.TemporaryNames

/-!
Replacing a file again. The directories are there and the same temporary file is made, so the same
content in the same place leaves the host as it is. Only where the file has replaced a link, and the
path or that of the temporary file goes by this very link, is there no way to the place any more.
-/
namespace MarkupTidy

/-- What a suffix is made of stands in the name. -/
theorem Path.mem_suffix {p : Path} {c : Char} (h : c ∈ p.suffix.toList) :
    c = '.' ∨ c ∈ p.name.toList := by
  unfold suffix at h
  dsimp only at h
  split at h
  · rw [String.toList_ofList] at h
    refine (List.mem_cons.1 h).imp_right fun hbehind => ?_
    have hname : c ∈ p.name.toList.reverse :=
      (List.takeWhile_prefix (· ≠ '.')).subset (List.mem_reverse.1 hbehind)
    exact List.mem_reverse.1 hname
  · cases h

namespace Host

open FileTree

/-- The path ends at a link, and leads through this same link itself, or the path of a temporary
file beside it does. -/
def BlocksItself (host : Host) (path : Path) : Prop :=
  ∃ place target, host.reach .link path.text [path.text] = .ok (.node place (.link target)) ∧
    (host.LeadsThrough path.text place ∨
      ∃ directory, host.absolute path.parent = .ok directory ∧
        host.LeadsThrough (host.temporaryPath path directory).text place)

/-- A file can be put at this place, at the end of the path, by way of a temporary file at another
place, whose path is told by a directory. -/
structure Admits (host : Host) (path directory : Path) (place temporary : Location) : Prop where
  refuses : ∀ step, host.refuses step = none
  named : path.parts ≠ [] ∧ path.name ≠ ".."
  way : host.reach .link path.text [path.text] = .ok (host.tree.foundAt place)
  free : (host.tree.node? place).any Node.isDirectory = false
  absolute : host.absolute path.parent = .ok directory
  vacant : host.reach .link (host.temporaryPath path directory).text
    [(host.temporaryPath path directory).text] = .ok (.vacant temporary)

/-- A temporary file is made where its path leads to nothing. -/
theorem reach_of_createTemporary {host host' : Host} {name : String} {place : Location}
    (h : host.createTemporary name = (.ok place, host')) :
    host.reach .link name [name] = .ok (.vacant place) := by
  unfold createTemporary at h
  split at h <;> cases h
  assumption

theorem temporary_of_replaceBeside {host host' : Host} {path : Path} {octets : Text.Utf8.Octets}
    (h : host.replaceBeside path octets = (.ok ⟨⟩, host')) :
    ∃ directory temporary, host.absolute path.parent = .ok directory ∧
      host.reach .link (host.temporaryPath path directory).text
        [(host.temporaryPath path directory).text] = .ok (.vacant temporary) := by
  unfold replaceBeside at h
  cases habsolute : host.absolute path.parent with
  | error fault =>
    rw [habsolute] at h
    cases h
  | ok directory =>
    rw [habsolute] at h
    dsimp only at h
    rw [← temporaryPath] at h
    cases hmade : host.createTemporary (host.temporaryPath path directory).text with
    | mk result after =>
      rw [hmade] at h
      cases result with
      | error fault => cases h
      | ok temporary => exact ⟨directory, temporary, rfl, reach_of_createTemporary hmade⟩

/-- A file that was replaced could be put at the end of the path, and was put there. -/
theorem admits_of_replaceFile {host host' : Host} {path : Path} {octets : Text.Utf8.Octets}
    (h : host.replaceFile path octets = (.ok ⟨⟩, host')) :
    ∃ directory place temporary,
      (host.makeDirectories path.parent).2.Admits path directory place temporary ∧
      host' = (host.makeDirectories path.parent).2.withTree
        ((host.makeDirectories path.parent).2.tree.set place
          (.file ⟨octets, privateMode, none⟩)) := by
  obtain ⟨between, hmakes, ⟨fault, hreplaced⟩ | ⟨hrefuses, rfl, place, hnamed, hreach, hfree,
    hreplaced⟩⟩ := replaceFile_cases host path octets
  · cases hreplaced.symm.trans h
  · have hbeside : (host.makeDirectories path.parent).2.replaceBeside path octets =
        (.ok ⟨⟩, host') := by
      rw [← h, replaceFile, hrefuses]
      cases hmade : host.makeDirectories path.parent with
      | mk result between =>
        cases result with
        | ok done => rfl
        | error fault =>
          rw [replaceFile, hrefuses, hmade] at h
          cases h
    obtain ⟨directory, temporary, habsolute, hvacant⟩ := temporary_of_replaceBeside hbeside
    have hrefuses' : ∀ step, (host.makeDirectories path.parent).2.refuses step = none := by
      rwa [hmakes.adds.refuses]
    exact ⟨directory, place, temporary, ⟨hrefuses', hnamed, hreach, hfree, habsolute, hvacant⟩,
      (Prod.mk.inj (hreplaced.symm.trans h)).2.symm⟩

/-- Where no file can be put at the end of the path, none is replaced. -/
theorem replaceFile_fails {host : Host} {path : Path}
    (h : ∀ directory place temporary,
      ¬ (host.makeDirectories path.parent).2.Admits path directory place temporary)
    (octets : Text.Utf8.Octets) :
    ∃ fault host', host.replaceFile path octets = (.error fault, host') := by
  cases hreplace : host.replaceFile path octets with
  | mk result host' =>
    cases result with
    | error fault => exact ⟨fault, host', rfl⟩
    | ok done =>
      obtain ⟨directory, place, temporary, hadmits, -⟩ := admits_of_replaceFile hreplace
      exact absurd hadmits (h directory place temporary)

/-! What is the same when a file is put somewhere. -/

theorem isSome_node?_set {tree : FileTree} {other : Location}
    (h : (tree.node? other).isSome = true) (place : Location) (node : Node) :
    ((tree.set place node).node? other).isSome = true := by
  by_cases hroot : other = []
  · rw [hroot]
    rfl
  · rw [node?_set _ _ _ _ hroot]
    split
    · rfl
    · exact h

theorem absolute_set {host : Host} {path full : Path} (h : host.absolute path = .ok full)
    (place : Location) (node : Node) :
    (host.withTree (host.tree.set place node)).absolute path = .ok full := by
  unfold absolute at h ⊢
  split at h
  · next habsolute => rw [if_pos habsolute, h]
  · next hrelative =>
    rw [if_neg hrelative, ← h]
    unfold workingPath at h ⊢
    split at h
    · next hthere =>
      have hthere' := isSome_node?_set hthere place node
      rw [if_pos hthere]
      exact congrArg (Except.map _) (if_pos hthere')
    · cases h

theorem freshName_set {place : Location} {suffix : String}
    (hplace : ∀ n, place.getLast? ≠ some (temporaryName suffix n)) (host : Host)
    (directory : Location) (node : Node) :
    (host.withTree (host.tree.set place node)).freshName directory suffix =
      host.freshName directory suffix := by
  refine freshName_eq (fun n => congrArg Option.isSome (node?_set_ne node ?_))
    (length_set host.tree place node)
  rintro rfl
  exact hplace n (List.getLast?_concat ..)

theorem not_leadsThrough {host : Host} {place : Location}
    (hnode : ∀ target, host.tree.node? place ≠ some (.link target)) (text : String) :
    ¬ host.LeadsThrough text place := by
  intro hmem
  obtain ⟨target, hlink⟩ := node?_of_mem_linksOn hmem
  exact hnode target hlink

/-- Where a file has taken the place of a link, no path that has led through the link leads
anywhere, whatever else is new. -/
theorem reach_stopped {host after : Host} {text : String} {place : Location} {file : File}
    {found : Found} {paths : List String} (hends : EndsInName (steps text))
    (hreach : host.reach .link text paths = .ok found) (hmem : host.LeadsThrough text place)
    (hdirectory : after.directory = host.directory)
    (hfile : after.tree.node? place = some (.file file))
    (hkept : ∀ {other : Location} {node : Node}, other ≠ place →
      host.tree.node? other = some node → after.tree.node? other = some node)
    (others : List String) (found' : Found) : after.reach .link text others ≠ .ok found' := by
  intro hagain
  obtain ⟨target, hlink⟩ := node?_of_mem_linksOn hmem
  have hstops := walkFrom_stopped (show Purpose.link ≠ .fileTarget from nofun) hlink hfile hkept
    ((reach_eq_ok hends).1 hreach).2 hmem
  obtain ⟨-, hwalk⟩ := (reach_eq_ok hends).1 hagain
  rw [hdirectory] at hwalk
  cases hstops.symm.trans hwalk

/-- The path of a temporary file ends in its name. -/
theorem endsInName_temporaryPath (host : Host) (directory : Path) {path : Path}
    (hproper : path.IsProper) (hparts : path.parts ≠ []) :
    EndsInName (steps (host.temporaryPath path directory).text) ∧
      ∃ n, (steps (host.temporaryPath path directory).text).getLast? =
        some (temporaryName path.suffix n) := by
  obtain ⟨-, -, hname⟩ := hproper path.name (Path.name_mem hparts)
  have hsuffix : '/' ∉ path.suffix.toList := fun hmem =>
    (Path.mem_suffix hmem).elim (by decide) hname
  obtain ⟨hslash, hnamed⟩ := temporaryName_plain hsuffix _
  exact ⟨endsInName_child directory hslash hnamed,
    _, getLast?_steps_child directory hslash hnamed.1⟩

section Again

variable {host : Host} {path directory : Path} {place temporary : Location}

namespace Admits

theorem endsInName (h : host.Admits path directory place temporary) (hproper : path.IsProper) :
    EndsInName (steps path.text) :=
  hproper.endsInName h.named.1 h.named.2

theorem node?_temporary (h : host.Admits path directory place temporary) :
    host.tree.node? temporary = none :=
  walk_vacant (reach_iff_walk.1 h.vacant).2

/-- The file gets the path's own name, no temporary one. -/
theorem getLast?_place (h : host.Admits path directory place temporary)
    (hproper : path.IsProper) : place.getLast? = some path.name := by
  obtain ⟨-, hwalk⟩ := (reach_eq_ok (h.endsInName hproper)).1 h.way
  obtain ⟨last, hlast, hname⟩ := walkFrom_ends hwalk (h.endsInName hproper)
  obtain rfl := foundAt_inj hlast
  rw [hname, hproper.steps_text h.named.1, Path.name, List.getLastD_eq_getLast?,
    List.getLast?_eq_some_getLast h.named.1]
  rfl

theorem getLast?_temporary (h : host.Admits path directory place temporary)
    (hproper : path.IsProper) : ∃ n, temporary.getLast? = some (temporaryName path.suffix n) := by
  obtain ⟨hends, n, hname⟩ := endsInName_temporaryPath host directory hproper h.named.1
  obtain ⟨-, hwalk⟩ := (reach_eq_ok hends).1 h.vacant
  obtain ⟨last, hlast, hplace⟩ := walkFrom_ends hwalk hends
  have hfound : host.tree.foundAt temporary = .vacant temporary := by
    rw [foundAt, h.node?_temporary]
  obtain rfl := foundAt_inj (hfound.trans hlast)
  exact ⟨n, hplace.trans hname⟩

theorem blocksItself_iff (h : host.Admits path directory place temporary) :
    host.BlocksItself path ↔ host.LeadsThrough path.text place ∨
      host.LeadsThrough (host.temporaryPath path directory).text place := by
  constructor
  · rintro ⟨last, target, hlast, hblocks⟩
    rw [h.way] at hlast
    obtain ⟨rfl, -⟩ := foundAt_eq_node (Except.ok.inj hlast)
    refine hblocks.imp_right ?_
    rintro ⟨other, hother, hmem⟩
    rw [h.absolute] at hother
    cases hother
    exact hmem
  · intro hblocks
    have hlink : ∃ target, host.tree.node? place = some (.link target) :=
      hblocks.elim node?_of_mem_linksOn node?_of_mem_linksOn
    obtain ⟨target, hlink⟩ := hlink
    refine ⟨place, target, ?_, hblocks.imp_right fun hmem => ⟨directory, h.absolute, hmem⟩⟩
    rw [← foundAt_of_some hlink]
    exact h.way

/-- The temporary file has the same path when a file with no temporary name is put somewhere. -/
theorem temporaryPath_set (h : host.Admits path directory place temporary)
    (hproper : path.IsProper) (hname : ∀ n, path.name ≠ temporaryName path.suffix n)
    (node : Node) :
    (host.withTree (host.tree.set place node)).temporaryPath path directory =
      host.temporaryPath path directory := by
  have hplace : ∀ n, place.getLast? ≠ some (temporaryName path.suffix n) := by
    intro n hlast
    rw [h.getLast?_place hproper] at hlast
    exact hname n (Option.some.inj hlast)
  rw [temporaryPath, freshName_set hplace, temporaryPath]

/-- Once a file was put there, another one can be. -/
theorem again (h : host.Admits path directory place temporary) (hproper : path.IsProper)
    (hname : ∀ n, path.name ≠ temporaryName path.suffix n) (hblocks : ¬ host.BlocksItself path)
    (file : File) :
    (host.withTree (host.tree.set place (.file file))).Admits path directory place temporary := by
  obtain ⟨hway, htemporary⟩ := not_or.1 (mt h.blocksItself_iff.2 hblocks)
  obtain ⟨hends, -⟩ := endsInName_temporaryPath host directory hproper h.named.1
  have hnone := h.node?_temporary
  have hvacant : host.reach .link (host.temporaryPath path directory).text
      [(host.temporaryPath path directory).text] = .ok (host.tree.foundAt temporary) := by
    rw [h.vacant, foundAt, hnone]
  have hother : temporary ≠ place := by
    rintro rfl
    obtain ⟨n, hlast⟩ := h.getLast?_temporary hproper
    rw [h.getLast?_place hproper] at hlast
    exact hname n (Option.some.inj hlast)
  have hnone' : (host.tree.set place (.file file)).node? temporary = none :=
    (node?_set_ne _ hother).trans hnone
  have hself : (host.tree.set place (.file file)).node? place = some (.file file) :=
    node?_set_self _ (ne_nil_of_node? h.free)
  refine ⟨h.refuses, h.named,
    reach_set (h.endsInName hproper) h.way h.free hway file (Or.inl rfl) _, ?_,
    absolute_set h.absolute _ _, ?_⟩
  · exact (congrArg (Option.any Node.isDirectory) hself).trans rfl
  · rw [h.temporaryPath_set hproper hname]
    have hreach := reach_set hends hvacant h.free htemporary file (Or.inl rfl)
      [(host.temporaryPath path directory).text]
    rwa [foundAt, hnone'] at hreach

/-- Any content can be put there. -/
theorem replaceBeside_eq (h : host.Admits path directory place temporary)
    (hproper : path.IsProper) (octets : Text.Utf8.Octets) :
    host.replaceBeside path octets =
      (.ok ⟨⟩, host.withTree (host.tree.set place (.file ⟨octets, privateMode, none⟩))) := by
  have hnone := h.node?_temporary
  have hfree : (host.tree.node? temporary).any Node.isDirectory = false := by rw [hnone]; rfl
  have hoff : ¬ host.LeadsThrough path.text temporary :=
    not_leadsThrough (fun target hlink => by rw [hnone] at hlink; cases hlink) path.text
  refine replaceBeside_of_ways h.refuses h.absolute h.vacant h.named ?_
    fun paths => reach_set (h.endsInName hproper) h.way hfree hoff _ (Or.inl rfl) paths
  by_cases hsame : place = temporary
  · rw [hsame, node?_set_self _ (ne_nil_of_node? hfree)]
    rfl
  · rw [node?_set_ne _ hsame]
    exact h.free

/-- The directories above a file that was put there are there. -/
theorem makeDirectories_after (h : host.Admits path directory place temporary)
    (hproper : path.IsProper) (hway : ¬ host.LeadsThrough path.text place) (file : File) :
    (host.withTree (host.tree.set place (.file file))).makeDirectories path.parent =
      (.ok ⟨⟩, host.withTree (host.tree.set place (.file file))) := by
  have hitself : ¬ host.LeadsThroughItself path := mt (leadsThroughItself_iff h.way).1 hway
  exact makeDirectories_of_goesBy (hproper.goesBy_parent h.named.1)
    (stat_set_end (h.endsInName hproper) h.way h.free hitself file)

/-- A path that leads through its own end is blocked by the file that is put there. -/
theorem blocked_way (h : host.Admits path directory place temporary) (hproper : path.IsProper)
    (hway : host.LeadsThrough path.text place) (file : File) (other : Text.Utf8.Octets) :
    ∃ fault after, (host.withTree (host.tree.set place (.file file))).replaceFile path other =
      (.error fault, after) := by
  refine replaceFile_fails (fun directory' last temporary' hadmits => ?_) other
  have hadds := (makeDirectories_makes (host.withTree (host.tree.set place (.file file)))
    path.parent).adds
  generalize ((host.withTree (host.tree.set place (.file file))).makeDirectories path.parent).2 =
    between at hadmits hadds
  have hself : (host.withTree (host.tree.set place (.file file))).tree.node? place =
      some (.file file) := node?_set_self _ (ne_nil_of_node? h.free)
  have hdirectory : between.directory = host.directory := by
    rw [hadds.onlyTree]
    rfl
  exact reach_stopped (h.endsInName hproper) h.way hway hdirectory (hadds.keeps hself)
    (fun hne hnode => hadds.keeps ((node?_set_ne _ hne).trans hnode)) _ _ hadmits.way

/-- The path of a temporary file that leads through the end of the path is blocked by the file that
is put there. -/
theorem blocked_temporary (h : host.Admits path directory place temporary)
    (hproper : path.IsProper) (hname : ∀ n, path.name ≠ temporaryName path.suffix n)
    (hway : ¬ host.LeadsThrough path.text place)
    (htemporary : host.LeadsThrough (host.temporaryPath path directory).text place)
    (file : File) (other : Text.Utf8.Octets) :
    ∃ fault after, (host.withTree (host.tree.set place (.file file))).replaceFile path other =
      (.error fault, after) := by
  refine replaceFile_fails (fun directory' last temporary' hadmits => ?_) other
  rw [h.makeDirectories_after hproper hway] at hadmits
  obtain rfl : directory' = directory :=
    Except.ok.inj (hadmits.absolute.symm.trans (absolute_set h.absolute _ _))
  have hself : (host.withTree (host.tree.set place (.file file))).tree.node? place =
      some (.file file) := node?_set_self _ (ne_nil_of_node? h.free)
  have hdirectory : (host.withTree (host.tree.set place (.file file))).directory =
      host.directory := rfl
  obtain ⟨hends, -⟩ := endsInName_temporaryPath host directory' hproper h.named.1
  have hvacant := hadmits.vacant
  rw [h.temporaryPath_set hproper hname] at hvacant
  exact reach_stopped hends h.vacant htemporary hdirectory hself
    (fun hne hnode => (node?_set_ne _ hne).trans hnode) _ _ hvacant

end Admits

section Replaced

variable {host' : Host} {octets : Text.Utf8.Octets} (hproper : path.IsProper)
  (hname : ∀ n, path.name ≠ temporaryName path.suffix n)
  (h : host.replaceFile path octets = (.ok ⟨⟩, host'))
include hproper hname h

/-- Replacing a file again with the same content leaves the host as it is, unless the first
replacement has blocked the way. -/
theorem replaceFile_again (hblocks : ¬ (host.makeDirectories path.parent).2.BlocksItself path) :
    host'.replaceFile path octets = (.ok ⟨⟩, host') := by
  obtain ⟨directory, place, temporary, hadmits, rfl⟩ := admits_of_replaceFile h
  generalize (host.makeDirectories path.parent).2 = between at hadmits hblocks ⊢
  have hway : ¬ between.LeadsThrough path.text place :=
    fun hmem => hblocks (hadmits.blocksItself_iff.2 (Or.inl hmem))
  have hagain := hadmits.again hproper hname hblocks ⟨octets, privateMode, none⟩
  have hbeside := hagain.replaceBeside_eq hproper octets
  rw [withTree_set_set] at hbeside
  rw [replaceFile, hagain.refuses, hadmits.makeDirectories_after hproper hway]
  exact hbeside

/-- Where the first replacement has blocked the way, no other one is possible. -/
theorem replaceFile_blocked (hblocks : (host.makeDirectories path.parent).2.BlocksItself path)
    (other : Text.Utf8.Octets) :
    ∃ fault after, host'.replaceFile path other = (.error fault, after) := by
  obtain ⟨directory, place, temporary, hadmits, rfl⟩ := admits_of_replaceFile h
  generalize (host.makeDirectories path.parent).2 = between at hadmits hblocks ⊢
  by_cases hway : between.LeadsThrough path.text place
  · exact hadmits.blocked_way hproper hway _ other
  · have htemporary := (hadmits.blocksItself_iff.1 hblocks).resolve_left hway
    exact hadmits.blocked_temporary hproper hname hway htemporary _ other

end Replaced

end Again

end Host

end MarkupTidy
