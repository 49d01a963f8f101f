import MarkupTidy.Proofs.Files.Overwritten

/-!
Making the directories of a file. Each one is made where a path above the file leads to nothing;
whatever was there before stays, and so it is when the file itself is put into its directory.
-/
namespace MarkupTidy

namespace Path

theorem mem_upward_iff (p path : Path) :
    path ∈ p.upward ↔ path.anchor = p.anchor ∧ path.parts <+: p.parts := by
  simp only [upward, List.mem_map, List.mem_range]
  constructor
  · rintro ⟨n, -, rfl⟩
    exact ⟨rfl, List.take_prefix _ _⟩
  · rintro ⟨hanchor, hparts⟩
    refine ⟨p.parts.length - path.parts.length, by omega, ?_⟩
    have hlength := hparts.length_le
    have hcount : p.parts.length - (p.parts.length - path.parts.length) = path.parts.length := by
      omega
    rw [hcount, ← List.prefix_iff_eq_take.1 hparts, ← hanchor]

theorem mem_upward_self (p : Path) : p ∈ p.upward :=
  (mem_upward_iff p p).2 ⟨rfl, List.prefix_refl _⟩

theorem upward_parent_subset {p path : Path} (h : path ∈ p.parent.upward) : path ∈ p.upward := by
  obtain ⟨hanchor, hparts⟩ := (mem_upward_iff _ _).1 h
  exact (mem_upward_iff _ _).2 ⟨hanchor, hparts.trans (List.dropLast_prefix _)⟩

end Path

namespace Host

open FileTree

/-- Directories are made one after the other, each where one of some paths leads to nothing. -/
inductive Makes (paths : List Path) : Host → Host → Prop
  | nothing (host : Host) : Makes paths host host
  | directory {host host' : Host} {path : Path} {place : Location} (hpath : path ∈ paths)
      (hway : host.walk .link path.text = .ok (.vacant place))
      (hmore : Makes paths (host.withTree (host.tree.set place .directory)) host') :
      Makes paths host host'

/-- Only the tree is another one, and only by new directories where nothing was. -/
structure AddsDirectories (host host' : Host) : Prop where
  onlyTree : host' = host.withTree host'.tree
  places : ∀ place, host'.tree.node? place = host.tree.node? place ∨
    host.tree.node? place = none ∧ host'.tree.node? place = some .directory

namespace AddsDirectories

variable {host host' : Host}

theorem same (host : Host) : host.AddsDirectories host := ⟨rfl, fun _ => Or.inl rfl⟩

/-- What was there is there still. -/
theorem keeps (h : host.AddsDirectories host') {place : Location} {node : Node}
    (hnode : host.tree.node? place = some node) : host'.tree.node? place = some node := by
  rcases h.places place with hsame | ⟨hnone, -⟩
  · rw [hsame, hnode]
  · rw [hnode] at hnone
    cases hnone

/-- A device refuses the same steps whatever its files are. -/
theorem refuses (h : host.AddsDirectories host') : host'.refuses = host.refuses := by
  rw [h.onlyTree]
  rfl

end AddsDirectories

namespace Makes

variable {paths : List Path} {host between host' : Host}

theorem trans (h : Makes paths host between) (hmore : Makes paths between host') :
    Makes paths host host' := by
  induction h with
  | nothing host => exact hmore
  | directory hpath hway _ ih => exact .directory hpath hway (ih hmore)

theorem mono (h : Makes paths host host') {more : List Path}
    (hsubset : ∀ path ∈ paths, path ∈ more) : Makes more host host' := by
  induction h with
  | nothing host => exact .nothing host
  | directory hpath hway _ ih => exact .directory (hsubset _ hpath) hway ih

theorem adds (h : Makes paths host host') : host.AddsDirectories host' := by
  induction h with
  | nothing host => exact .same host
  | @directory host host' path new hpath hway hmore ih =>
    obtain ⟨hhost, hplaces⟩ := ih
    have hnew : host.tree.node? new = none := walk_vacant hway
    have hroot : new ≠ [] := ne_nil_of_node? (by rw [hnew]; rfl)
    have hself : (host.withTree (host.tree.set new .directory)).tree.node? new =
        some .directory := node?_set_self _ hroot
    refine ⟨hhost, fun place => ?_⟩
    by_cases hplace : place = new
    · subst hplace
      refine Or.inr ⟨hnew, ?_⟩
      rcases hplaces place with hsame | ⟨hnone, -⟩
      · rw [hsame, hself]
      · rw [hself] at hnone
        cases hnone
    · have hother : (host.withTree (host.tree.set new .directory)).tree.node? place =
          host.tree.node? place := node?_set_ne _ hplace
      have hthere := hplaces place
      rwa [hother] at hthere

end Makes

theorem makeDirectory_makes (host : Host) (path : Path) :
    Makes [path] host (host.makeDirectory path).2 := by
  unfold makeDirectory
  split
  · exact .nothing host
  · exact .nothing host
  · next place hreach =>
    have hway := (reach_iff_walk.1 hreach).2
    exact .directory (List.mem_singleton_self _) hway (.nothing _)

theorem orPresent_host (path : Path) (change : Change PUnit) :
    (orPresent path change).2 = change.2 := by
  unfold orPresent
  split
  · split <;> rfl
  · rfl

/-- A directory and those above it are made where they are missing. -/
theorem makeDirectories_makes (host : Host) (path : Path) :
    Makes path.upward host (host.makeDirectories path).2 := by
  have hmakes : ∀ (host : Host) (path : Path), Makes path.upward host (host.makeDirectory path).2 :=
    fun host path => (makeDirectory_makes host path).mono fun other hother =>
      List.mem_singleton.1 hother ▸ path.mem_upward_self
  fun_induction Host.makeDirectories host path with
  | case1 host path paths host' hmade hroot =>
    have hfirst := hmakes host path
    rw [hmade] at hfirst
    exact hfirst
  | case2 host path paths host' hmade hroot above host'' habove ih =>
    have hfirst := hmakes host path
    rw [hmade] at hfirst
    rw [habove] at ih
    rw [orPresent_host]
    exact (hfirst.trans (ih.mono fun _ => Path.upward_parent_subset)).trans (hmakes host'' path)
  | case3 host path paths host' hmade hroot habove ih =>
    have hfirst := hmakes host path
    rw [hmade] at hfirst
    exact hfirst.trans (ih.mono fun _ => Path.upward_parent_subset)
  | case4 host path hmade =>
    rw [orPresent_host]
    exact hmakes host path

/-- Where the way to a directory ends too soon, what is above it is made first. -/
theorem makeDirectories_of_missing {host between : Host} {path : Path}
    (hmissing : host.reach .link path.text [path.text] =
      .error (.refused ⟨.noEntry, [path.text]⟩))
    (hparts : path.parts ≠ [])
    (habove : host.makeDirectories path.parent = (.ok ⟨⟩, between)) :
    host.makeDirectories path = orPresent path (between.makeDirectory path) := by
  have hmade : host.makeDirectory path =
      (.error (.refused ⟨.noEntry, [path.text]⟩), host) := by
    rw [makeDirectory, hmissing]
  rw [makeDirectories, hmade]
  simp only [hparts, dite_false, habove]

/-- A file is put at the end of a path, where no directory is, or everything stays as it was. -/
inductive Puts (path : Path) (octets : Text.Utf8.Octets) (host : Host) : Host → Prop
  | nothing : Puts path octets host host
  | file (place : Location) (hway : host.walk .link path.text = .ok (host.tree.foundAt place))
      (hfree : (host.tree.node? place).any Node.isDirectory = false) :
      Puts path octets host
        (host.withTree (host.tree.set place (.file ⟨octets, privateMode, none⟩)))

/-- Replacing a file makes the missing directories above it. Then it fails and changes nothing else,
or no step is refused and the file is put at the end of the path. -/
theorem replaceFile_cases (host : Host) (path : Path) (octets : Text.Utf8.Octets) :
    ∃ between, Makes path.parent.upward host between ∧
      ((∃ fault, host.replaceFile path octets = (.error fault, between)) ∨
        (∀ step, host.refuses step = none) ∧
        between = (host.makeDirectories path.parent).2 ∧
        ∃ place, (path.parts ≠ [] ∧ path.name ≠ "..") ∧
          between.reach .link path.text [path.text] = .ok (between.tree.foundAt place) ∧
          (between.tree.node? place).any Node.isDirectory = false ∧
          host.replaceFile path octets = (.ok ⟨⟩,
            between.withTree (between.tree.set place (.file ⟨octets, privateMode, none⟩)))) := by
  unfold replaceFile
  split
  · exact ⟨host, .nothing host, Or.inl ⟨_, rfl⟩⟩
  · next hparents =>
    have hmakes := makeDirectories_makes host path.parent
    refine ⟨(host.makeDirectories path.parent).2, hmakes, ?_⟩
    cases hmade : host.makeDirectories path.parent with
    | mk result between =>
      rw [hmade] at hmakes
      cases result with
      | error fault => exact Or.inl ⟨fault, rfl⟩
      | ok done =>
        refine (replaceBeside_cases between path octets).imp_right fun ⟨hrefuses, hput⟩ => ?_
        refine ⟨fun step => ?_, rfl, hput⟩
        by_cases hstep : step = .makeParents
        · rw [hstep, hparents]
        · rw [← hmakes.adds.refuses]
          exact hrefuses step hstep

/-- Replacing a file makes the missing directories above it, and then at most puts the file. -/
theorem replaceFile_puts (host : Host) (path : Path) (octets : Text.Utf8.Octets) :
    ∃ between, Makes path.parent.upward host between ∧
      Puts path octets between (host.replaceFile path octets).2 := by
  obtain ⟨between, hmakes, ⟨fault, hreplaced⟩ | ⟨-, -, place, -, hreach, hfree, hreplaced⟩⟩ :=
    replaceFile_cases host path octets
  · exact ⟨between, hmakes, by rw [hreplaced]; exact .nothing⟩
  · rw [hreplaced]
    exact ⟨between, hmakes, .file place (reach_iff_walk.1 hreach).2 hfree⟩

/-- The content that replaces a file is found at the end of its path. -/
theorem stat_replaceFile {host host' : Host} {path : Path} {octets : Text.Utf8.Octets}
    (hreplace : host.replaceFile path octets = (.ok ⟨⟩, host'))
    (hends : EndsInName (steps path.text))
    (hway : ¬ (host.makeDirectories path.parent).2.LeadsThroughItself path) :
    ∃ place, host'.stat path.text = .ok (place, .file ⟨octets, privateMode, none⟩) := by
  obtain ⟨between, -, ⟨fault, hreplaced⟩ | ⟨-, rfl, place, -, hreach, hfree, hreplaced⟩⟩ :=
    replaceFile_cases host path octets
  · rw [hreplaced] at hreplace
    cases hreplace
  · rw [hreplaced] at hreplace
    cases hreplace
    exact ⟨place, stat_set_end hends hreach hfree hway _⟩

/-- A file was put at the end of a path, and nothing else is new but directories. The path reads the
file, unless it leads through the link that was there. -/
def Gains (host : Host) (path : Path) (octets : Text.Utf8.Octets) (host' : Host) : Prop :=
  ∃ between place, host.AddsDirectories between ∧
    between.walk .link path.text = .ok (between.tree.foundAt place) ∧
    host' = between.withTree (between.tree.set place (.file ⟨octets, privateMode, none⟩)) ∧
    host'.tree.node? place = some (.file ⟨octets, privateMode, none⟩) ∧
    (host'.readOctets path = .ok octets ↔ ¬ between.LeadsThroughItself path)

theorem gains_of_replaceFile {host host' : Host} {path : Path} {octets : Text.Utf8.Octets}
    (hreplace : host.replaceFile path octets = (.ok ⟨⟩, host'))
    (hends : EndsInName (steps path.text)) : host.Gains path octets host' := by
  obtain ⟨between, hmakes, ⟨fault, hreplaced⟩ | ⟨-, -, place, -, hreach, hfree, hreplaced⟩⟩ :=
    replaceFile_cases host path octets
  · rw [hreplaced] at hreplace
    cases hreplace
  · rw [hreplaced] at hreplace
    cases hreplace
    exact ⟨between, place, hmakes.adds, (reach_iff_walk.1 hreach).2, rfl,
      node?_set_self _ (ne_nil_of_node? hfree), readOctets_set_end hends hreach hfree octets⟩

end Host

end MarkupTidy
