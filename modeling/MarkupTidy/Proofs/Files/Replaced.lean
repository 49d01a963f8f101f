import MarkupTidy.Proofs.Files.Walks

/-!
Reading back a file that was replaced. The new content takes the place at the end of the path, and
the temporary file is gone. Neither is a directory, so the walk to the file goes as before, unless a
link leads it through the file's own place: the very link that is replaced.
-/
namespace MarkupTidy

namespace Host

open FileTree

/-- A link lies at this place, and the way along the path goes by it. -/
def LeadsThrough (host : Host) (text : String) (place : Location) : Prop :=
  place ∈ host.tree.linksOn linkLimit (walkStart host.directory text) (steps text)

/-- The path ends at a link, and the way there leads through this same link. -/
def LeadsThroughItself (host : Host) (path : Path) : Prop :=
  ∃ place target, host.reach .link path.text [path.text] = .ok (.node place (.link target)) ∧
    place ∈ host.tree.linksOn linkLimit (walkStart host.directory path.text) (steps path.text)

theorem mapError_eq_ok {ε ε' α : Type} {result : Except ε α} {f : ε → ε'} {value : α} :
    result.mapError f = .ok value ↔ result = .ok value := by
  cases result with
  | error fault => exact ⟨nofun, nofun⟩
  | ok other =>
    have hmap : Except.mapError f (.ok other) = .ok other := rfl
    rw [hmap, Except.ok.injEq, Except.ok.injEq]

/-- A path that ends in a name leads somewhere if it can be walked. -/
theorem reach_eq_ok {host : Host} {purpose : Purpose} {text : String} {paths : List String}
    {found : Found} (hends : EndsInName (steps text)) :
    host.reach purpose text paths = .ok found ↔
      (hasNul text = false ∧ text.isEmpty = false ∧ isPathTooLong text = false) ∧
        host.tree.walkFrom purpose linkLimit (walkStart host.directory text) (steps text) =
          .ok found := by
  have hleft : steps text ≠ [] := by
    obtain ⟨name, hlast, -⟩ := hends
    rintro hnil
    rw [hnil] at hlast
    cases hlast
  unfold Host.reach Host.walk FileTree.walk
  cases hasNul text with
  | true => simp
  | false =>
    simp only [Bool.false_eq_true, if_false, mapError_eq_ok]
    cases text.isEmpty with
    | true => simp
    | false =>
      cases isPathTooLong text with
      | true => simp
      | false =>
        simp only [Bool.false_eq_true, if_false, and_self, true_and]
        split
        · next hnone =>
          -- Nothing stands where the walk begins.
          rw [hends.walkFromMissing]
          refine ⟨nofun, fun h => ?_⟩
          have hstands := walkFrom_stands h hleft
          rw [Option.isNone_iff_eq_none.1 hnone] at hstands
          cases hstands
        · rfl

/-- A path leads where the walk along it does, if it has no NUL in it. -/
theorem reach_iff_walk {host : Host} {purpose : Purpose} {text : String} {paths : List String}
    {found : Found} :
    host.reach purpose text paths = .ok found ↔
      hasNul text = false ∧ host.walk purpose text = .ok found := by
  unfold reach
  cases hasNul text with
  | true => simp
  | false => simp [mapError_eq_ok]

theorem reach_vacant {host : Host} {purpose : Purpose} {text : String} {paths : List String}
    {place : Location} (h : host.reach purpose text paths = .ok (.vacant place)) :
    host.tree.node? place = none :=
  walk_vacant (reach_iff_walk.1 h).2

/-- A file that is put off the way of a path leaves the way as it is. -/
theorem reach_set {host : Host} {text : String} {place last : Location} {paths : List String}
    (hends : EndsInName (steps text))
    (hreach : host.reach .link text paths = .ok (host.tree.foundAt last))
    (hfree : (host.tree.node? place).any Node.isDirectory = false)
    (hoff : ¬ host.LeadsThrough text place) (file : File) {purpose : Purpose}
    (hpurpose : purpose = .link ∨
      ∀ target, (host.tree.set place (.file file)).node? last ≠ some (.link target))
    (others : List String) :
    (host.withTree (host.tree.set place (.file file))).reach purpose text others =
      .ok ((host.tree.set place (.file file)).foundAt last) := by
  obtain ⟨hvalid, hwalk⟩ := (reach_eq_ok hends).1 hreach
  have hchanged : ∀ other, (host.tree.set place (.file file)).node? other = host.tree.node? other ∨
      (host.tree.node? other).any Node.isDirectory = false ∧
        other ∉ host.tree.linksOn linkLimit (walkStart host.directory text) (steps text) := by
    intro other
    by_cases hplace : other = place
    · rw [hplace]
      exact Or.inr ⟨hfree, hoff⟩
    · exact Or.inl (node?_set_ne _ hplace)
  obtain ⟨final, hlast, -, hwalks⟩ := walkFrom_changed hwalk hends hchanged
  obtain rfl := foundAt_inj hlast
  exact (reach_eq_ok hends).2 ⟨hvalid, hwalks purpose hpurpose⟩

/-- What lies at the end of a path leads it through itself if the way leads there before. -/
theorem leadsThroughItself_iff {host : Host} {path : Path} {place : Location}
    (hreach : host.reach .link path.text [path.text] = .ok (host.tree.foundAt place)) :
    host.LeadsThroughItself path ↔ host.LeadsThrough path.text place := by
  constructor
  · rintro ⟨last, target, hlast, hmem⟩
    rw [hreach] at hlast
    obtain ⟨rfl, -⟩ := foundAt_eq_node (Except.ok.inj hlast)
    exact hmem
  · intro hmem
    obtain ⟨target, hlink⟩ := node?_of_mem_linksOn hmem
    rw [foundAt_of_some hlink] at hreach
    exact ⟨place, target, hreach, hmem⟩

/-- A file that is put at the end of a path is found there. -/
theorem stat_set_end {host : Host} {path : Path} {place : Location}
    (hends : EndsInName (steps path.text))
    (hreach : host.reach .link path.text [path.text] = .ok (host.tree.foundAt place))
    (hfree : (host.tree.node? place).any Node.isDirectory = false)
    (hway : ¬ host.LeadsThroughItself path) (file : File) :
    (host.withTree (host.tree.set place (.file file))).stat path.text =
      .ok (place, .file file) := by
  have hself : (host.tree.set place (.file file)).node? place = some (.file file) :=
    node?_set_self _ (ne_nil_of_node? hfree)
  have hoff : ¬ host.LeadsThrough path.text place := mt (leadsThroughItself_iff hreach).2 hway
  have hfile : ∀ target,
      (host.tree.set place (.file file)).node? place ≠ some (.link target) := by
    rintro target hlink
    rw [hself] at hlink
    cases hlink
  have hreach' : (host.withTree (host.tree.set place (.file file))).reach .target path.text
      [path.text] = .ok (.node place (.file file)) := by
    rw [← foundAt_of_some hself]
    exact reach_set hends hreach hfree hoff file (Or.inr hfile) [path.text]
  rw [stat, hreach']

/-- A path that leads through itself leads nowhere when a file is put at its end. -/
theorem stat_set_itself {host : Host} {path : Path} {place : Location}
    (hends : EndsInName (steps path.text))
    (hreach : host.reach .link path.text [path.text] = .ok (host.tree.foundAt place))
    (hway : host.LeadsThroughItself path) (file : File) :
    ∃ fault, (host.withTree (host.tree.set place (.file file))).stat path.text = .error fault := by
  have hmem := (leadsThroughItself_iff hreach).1 hway
  obtain ⟨target, hlink⟩ := node?_of_mem_linksOn hmem
  have hroot : place ≠ [] := ne_nil_of_node? (by rw [hlink]; rfl)
  have hstops := walkFrom_stopped (show Purpose.target ≠ .fileTarget from nofun) hlink
    (node?_set_self (.file file) hroot) (fun hne hnode => (node?_set_ne _ hne).trans hnode)
    ((reach_eq_ok hends).1 hreach).2 hmem
  unfold stat
  cases hthere : (host.withTree (host.tree.set place (.file file))).reach .target path.text
      [path.text] with
  | error fault => exact ⟨fault, rfl⟩
  | ok found =>
    obtain ⟨-, hwalk⟩ := (reach_eq_ok hends).1 hthere
    cases hstops.symm.trans hwalk

theorem exists_of_stat {host : Host} {path : Path} {place : Location} {file : File}
    (h : host.stat path.text = .ok (place, .file file)) (hreadable : file.isReadable = true) :
    host.exists? path = .ok true ∧ host.readOctets path = .ok file.octets := by
  constructor
  · simp [exists?, look, h, Except.map]
  · simp [readOctets, h, hreadable]

/-- The owner of a new file may read it. -/
theorem isReadable_private (octets : Text.Utf8.Octets) :
    File.isReadable ⟨octets, privateMode, none⟩ = true := by
  simp [File.isReadable, File.ownerBit, privateMode]

/-- A file put at the end of a path is read by this path, unless the path leads through the link
that it replaces. -/
theorem readOctets_set_end {host : Host} {path : Path} {place : Location}
    (hends : EndsInName (steps path.text))
    (hreach : host.reach .link path.text [path.text] = .ok (host.tree.foundAt place))
    (hfree : (host.tree.node? place).any Node.isDirectory = false) (octets : Text.Utf8.Octets) :
    (host.withTree (host.tree.set place (.file ⟨octets, privateMode, none⟩))).readOctets path =
        .ok octets ↔
      ¬ host.LeadsThroughItself path := by
  constructor
  · rintro hread hway
    obtain ⟨fault, hgone⟩ := stat_set_itself hends hreach hway ⟨octets, privateMode, none⟩
    rw [readOctets, hgone] at hread
    cases hread
  · intro hway
    have hstat := stat_set_end hends hreach hfree hway ⟨octets, privateMode, none⟩
    exact (exists_of_stat hstat (isReadable_private octets)).2

/-- A file that can be read is there. -/
theorem exists?_of_readOctets {host : Host} {path : Path} {octets : Text.Utf8.Octets}
    (h : host.readOctets path = .ok octets) : host.exists? path = .ok true := by
  unfold readOctets at h
  unfold exists? look
  cases hstat : host.stat path.text with
  | error fault =>
    rw [hstat] at h
    cases h
  | ok found => rfl

end Host

end MarkupTidy
