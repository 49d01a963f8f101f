import MarkupTidy.CommandLine.Run
import MarkupTidy.Proofs.Files.PathSteps
import MarkupTidy.Proofs.Resolver.NearestFile

/-!
The workspace of a run that is given none. The search for a directory under version control goes up
from where it starts, as long as there is a directory above; so the root itself is never looked at,
and a run below a root under version control works where it starts.
-/
namespace MarkupTidy

namespace Host

/-- Something lies at the path, or at the end of the links that lie there. -/
def HasEntry (host : Host) (path : Path) : Prop :=
  ∃ place node, host.stat path.text = .ok (place, node)

/-- What asking whether a path is there comes to. -/
theorem exists?_cases (host : Host) (path : Path) :
    (host.HasEntry path ∧ ¬ host.IsOverlong path ∧ host.exists? path = .ok true) ∨
      (¬ host.HasEntry path ∧ host.IsOverlong path ∧
        host.exists? path = .error (.refused ⟨.nameTooLong, [path.text]⟩)) ∨
      (¬ host.HasEntry path ∧ ¬ host.IsOverlong path ∧ host.exists? path = .ok false) := by
  unfold HasEntry exists?
  rcases host.look_cases path with ⟨place, node, hstat, hlong, hlook⟩ |
    ⟨⟨fault, hstat⟩, ⟨hlong, hlook⟩ | ⟨hlong, hlook⟩⟩ <;>
    simp [hstat, hlong, hlook, Except.map]

end Host

namespace CommandLine

variable {host : Host} {directory top start : Path} {outcome outcome' : Except Fault (Option Path)}

/-- What shows that a directory is under version control. -/
def marker (directory : Path) : Path := directory.child ".git"

def IsControlled (host : Host) (directory : Path) : Prop := host.HasEntry (marker directory)

/-- Nothing keeps the search from going on above the directory. -/
def IsPassed (host : Host) (directory : Path) : Prop :=
  ¬ IsControlled host directory ∧ ¬ host.IsOverlong (marker directory)

/-- The search ends in the directory. -/
inductive EndsIn (host : Host) (directory : Path) : Except Fault (Option Path) → Prop
  | controlled (h : IsControlled host directory) : EndsIn host directory (.ok (some directory))
  | overlong (h : host.IsOverlong (marker directory)) :
    EndsIn host directory (.error (.refused ⟨.nameTooLong, [(marker directory).text]⟩))

/-- A search upward ends in the first directory that does not let it pass, or lets all below the
root pass. -/
def Climbs (host : Host) (top : Path) (outcome : Except Fault (Option Path)) : Prop :=
  (∃ n < top.parts.length, EndsIn host (Path.parent^[n] top) outcome ∧
      ∀ m < n, IsPassed host (Path.parent^[m] top)) ∨
    (outcome = .ok none ∧ ∀ n < top.parts.length, IsPassed host (Path.parent^[n] top))

theorem EndsIn.not_isPassed (h : EndsIn host directory outcome) : ¬ IsPassed host directory := by
  cases h with
  | controlled h => exact fun hpassed => hpassed.1 h
  | overlong h => exact fun hpassed => hpassed.2 h

theorem EndsIn.unique (h : EndsIn host directory outcome) (h' : EndsIn host directory outcome') :
    outcome = outcome' := by
  have hboth : IsControlled host directory → ¬ host.IsOverlong (marker directory) := by
    intro hcontrolled hlong
    rcases host.exists?_cases (marker directory) with ⟨-, hnot, -⟩ | ⟨hnot, -, -⟩ | ⟨hnot, -, -⟩
    · exact hnot hlong
    · exact hnot hcontrolled
    · exact hnot hcontrolled
  cases h with
  | controlled h =>
    cases h' with
    | controlled _ => rfl
    | overlong h' => exact absurd h' (hboth h)
  | overlong h =>
    cases h' with
    | controlled h' => exact absurd h (hboth h')
    | overlong _ => rfl

theorem Climbs.unique (h : Climbs host top outcome) (h' : Climbs host top outcome') :
    outcome = outcome' := by
  rcases h with ⟨n, hn, hends, hpassed⟩ | ⟨rfl, hall⟩ <;>
    rcases h' with ⟨n', hn', hends', hpassed'⟩ | ⟨rfl, hall'⟩
  · rcases Nat.lt_trichotomy n n' with hlt | rfl | hlt
    · exact absurd (hpassed' n hlt) hends.not_isPassed
    · exact hends.unique hends'
    · exact absurd (hpassed n' hlt) hends'.not_isPassed
  · exact absurd (hall' n hn) hends.not_isPassed
  · exact absurd (hall n' hn') hends'.not_isPassed
  · rfl

/-- One round of the search; there is none in the root. -/
theorem firstUnderControl_upward (host : Host) (directory : Path) :
    firstUnderControl host directory.upward.dropLast =
      if directory.parent = directory then .ok none
      else
        match host.exists? (marker directory) with
        | .error fault => .error fault
        | .ok true => .ok (some directory)
        | .ok false => firstUnderControl host directory.parent.upward.dropLast := by
  rw [Path.upward_eq_cons]
  split
  · rfl
  · have hne : directory.parent.upward ≠ [] := by simp [Path.upward]
    obtain ⟨above, others, habove⟩ := List.exists_cons_of_ne_nil hne
    rw [habove, List.dropLast_cons_cons, firstUnderControl]
    show (host.exists? (marker directory) >>= _) = _
    cases host.exists? (marker directory) with
    | error fault => rfl
    | ok present => cases present <;> rfl

/-- A search from above goes on to a search from a directory that lets it pass. -/
theorem Climbs.below (h : Climbs host directory.parent outcome)
    (hbelow : directory.parent ≠ directory) (hpassed : IsPassed host directory) :
    Climbs host directory outcome := by
  have hlength : directory.parent.parts.length + 1 = directory.parts.length := by
    have hne := List.length_pos_iff.2 (mt (Path.parent_eq_self_iff directory).2 hbelow)
    rw [Path.parent, List.length_dropLast]
    omega
  rcases h with ⟨n, hn, hends, habove⟩ | ⟨rfl, hall⟩
  · exact Or.inl ⟨n + 1, by omega, hends, Nat.forall_lt_succ_left.2 ⟨hpassed, habove⟩⟩
  · refine Or.inr ⟨rfl, ?_⟩
    rw [← hlength]
    exact Nat.forall_lt_succ_left.2 ⟨hpassed, hall⟩

theorem climbs_firstUnderControl (host : Host) (top : Path) :
    Climbs host top (firstUnderControl host top.upward.dropLast) := by
  induction hlength : top.parts.length using Nat.strongRecOn generalizing top with
  | ind length ih =>
    rw [firstUnderControl_upward]
    split
    · next htop =>
      rw [Path.parent_eq_self_iff] at htop
      exact Or.inr ⟨rfl, by simp [htop]⟩
    · next hbelow =>
      have hpos := List.length_pos_iff.2 (mt (Path.parent_eq_self_iff top).2 hbelow)
      rcases host.exists?_cases (marker top) with ⟨hcontrolled, -, h⟩ | ⟨-, hlong, h⟩ |
        ⟨hcontrolled, hlong, h⟩ <;> rw [h]
      · exact Or.inl ⟨0, hpos, .controlled hcontrolled, by simp⟩
      · exact Or.inl ⟨0, hpos, .overlong hlong, by simp⟩
      · have habove := ih _ (hlength ▸ Override.length_parent_lt hbelow) top.parent rfl
        exact habove.below hbelow ⟨hcontrolled, hlong⟩

/-- Where nothing is found, the search comes back to where it was started. -/
theorem controlledRoot_of_climbs (htop : host.resolve start = .ok top)
    (h : Climbs host top outcome) :
    controlledRoot host start = outcome.map fun found => found.getD start := by
  rw [controlledRoot, htop]
  show (firstUnderControl host top.upward.dropLast >>= _) = _
  rw [(climbs_firstUnderControl host top).unique h]
  cases outcome <;> rfl

/-- The search looks at the directories from the resolved start upward, the root excepted. It answers
with the first that has an entry of version control, where links are followed, and with the start as
it was given exactly if none has one; unless the system finds a path too long that comes before, or a
name on the way along it. -/
theorem controlledRoot_nearest (host : Host) (start : Path) :
    (∀ fault, host.resolve start = .error fault → controlledRoot host start = .error fault) ∧
      ∀ top, host.resolve start = .ok top →
        (top.isAbsolute = true ∧
          ∀ n, top.parts.length ≤ n ↔ Path.parent^[n] top = ⟨top.anchor, []⟩) ∧
        (∀ directory, controlledRoot host start = .ok directory ↔
          (∃ n < top.parts.length, directory = Path.parent^[n] top ∧ IsControlled host directory ∧
              ∀ m < n, IsPassed host (Path.parent^[m] top)) ∨
            (directory = start ∧ ∀ n < top.parts.length, IsPassed host (Path.parent^[n] top))) ∧
        ∀ fault, controlledRoot host start = .error fault ↔
          ∃ n < top.parts.length, host.IsOverlong (marker (Path.parent^[n] top)) ∧
            fault = .refused ⟨.nameTooLong, [(marker (Path.parent^[n] top)).text]⟩ ∧
            ∀ m < n, IsPassed host (Path.parent^[m] top) := by
  refine ⟨fun fault hfault => by rw [controlledRoot, hfault]; rfl, fun top htop => ?_⟩
  have hrooted : top.isAbsolute = true := by
    simpa [Path.isAbsolute] using Host.anchor_resolve htop
  have hclimbs := climbs_firstUnderControl host top
  have hroot := controlledRoot_of_climbs htop hclimbs
  refine ⟨⟨hrooted, fun n => ⟨Path.iterate_parent_eq_root, fun hn => ?_⟩⟩, fun directory =>
    ⟨fun h => ?_, ?_⟩, fun fault => ⟨fun h => ?_, ?_⟩⟩
  · have hparts := congrArg (fun path : Path => path.parts.length) hn
    simp only [Path.iterate_parent, List.length_take, List.length_nil] at hparts
    omega
  · rw [hroot] at h
    rcases hclimbs with ⟨n, hn, hends, hpassed⟩ | ⟨hnone, hall⟩
    · generalize firstUnderControl host top.upward.dropLast = outcome at h hends
      cases hends with
      | controlled hcontrolled =>
        cases h
        exact Or.inl ⟨n, hn, rfl, hcontrolled, hpassed⟩
      | overlong _ => cases h
    · rw [hnone] at h
      cases h
      exact Or.inr ⟨rfl, hall⟩
  · rintro (⟨n, hn, rfl, hcontrolled, hpassed⟩ | ⟨rfl, hall⟩)
    · exact controlledRoot_of_climbs htop (Or.inl ⟨n, hn, .controlled hcontrolled, hpassed⟩)
    · exact controlledRoot_of_climbs htop (Or.inr ⟨rfl, hall⟩)
  · rw [hroot] at h
    rcases hclimbs with ⟨n, hn, hends, hpassed⟩ | ⟨hnone, -⟩
    · generalize firstUnderControl host top.upward.dropLast = outcome at h hends
      cases hends with
      | controlled _ => cases h
      | overlong hlong =>
        cases h
        exact ⟨n, hn, hlong, rfl, hpassed⟩
    · rw [hnone] at h
      cases h
  · rintro ⟨n, hn, hlong, rfl, hpassed⟩
    exact controlledRoot_of_climbs htop (Or.inl ⟨n, hn, .overlong hlong, hpassed⟩)

/-- Two directories, one in the other, and an entry of version control. -/
def repositoryHost (controlled : Location) : Host where
  tree := ⟨[(["w"], .directory), (["w", "d"], .directory), (controlled ++ [".git"], .directory)]⟩
  directory := []
  searchPath := ""

section Repository

variable {controlled : Location}

/-- A name in one of the directories leads to what lies there. -/
theorem walk_below {parts names : List String} {name : String} {purpose : Purpose}
    (hparts : parts = names ++ [name]) (hnames : names = ["w"] ∨ names = ["w", "d"])
    (hname : IsPlainName name) (hlong : FileTree.isPathTooLong (Path.ofParts parts).text = false)
    (hother : ∀ target, (repositoryHost controlled).tree.node? parts ≠ some (.link target)) :
    (repositoryHost controlled).walk purpose (Path.ofParts parts).text =
      .ok ((repositoryHost controlled).tree.foundAt parts) := by
  have hplain : ∀ part ∈ names, IsPlainName part := by
    rcases hnames with rfl | rfl <;> decide
  have hall : ∀ part ∈ parts, IsPlainName part := by
    rw [hparts]
    exact List.forall_mem_append.2 ⟨hplain, List.forall_mem_singleton.2 hname⟩
  refine Host.walk_names hall (by simp [hparts]) (fun n hn => ?_) hlong hother
  rcases hnames with rfl | rfl <;> subst hparts
  · have htwo : n < 2 := hn
    obtain rfl | rfl : n = 0 ∨ n = 1 := by omega
    all_goals rfl
  · have hthree : n < 3 := hn
    obtain rfl | rfl | rfl : n = 0 ∨ n = 1 ∨ n = 2 := by omega
    all_goals rfl

theorem resolve_inner (controlled : Location) :
    (repositoryHost controlled).resolve (.ofParts ["w", "d"]) = .ok (.ofParts ["w", "d"]) := by
  have hwalk : ∀ purpose, (repositoryHost controlled).walk purpose (Path.ofParts ["w", "d"]).text =
      .ok (.node ["w", "d"] .directory) := fun purpose =>
    walk_below rfl (Or.inl rfl) (by decide) (by decide) nofun
  have houter : (repositoryHost controlled).tree.linkAt? [] ⟨.root, ["w"]⟩ = none :=
    (by decide : IsPlainName "w").linkAt?_eq_none nofun
  have hinner : (repositoryHost controlled).tree.linkAt? [] ⟨.root, ["w", "d"]⟩ = none := by
    have hfound : (repositoryHost controlled).tree.walk .link [] (Path.text ⟨.root, ["w", "d"]⟩) =
        .ok (.node ["w", "d"] .directory) := hwalk .link
    rw [FileTree.linkAt?, hfound]
  have hbegin : FileTree.startOf ⟨.none, []⟩ (Path.ofParts ["w", "d"]).text = ⟨.root, []⟩ := by
    decide
  have hsplit : Path.split (Path.ofParts ["w", "d"]).text = ["", "w", "d"] := by decide
  have hnul : Host.hasNul (Path.ofParts ["w", "d"]).text = false := by decide
  have hcomplete : (repositoryHost controlled).tree.resolve [] (Path.ofParts ["w", "d"]).text =
      .complete (.ofParts ["w", "d"]) := by
    simp [FileTree.resolve, hbegin, hsplit, FileTree.resolveFrom, Path.child, houter, hinner]
    rfl
  have habsolute : (repositoryHost controlled).absolute (Path.ofParts ["w", "d"]) =
      .ok (.ofParts ["w", "d"]) := rfl
  have hhere : (repositoryHost controlled).directory = [] := rfl
  simp only [Host.resolve, hnul, hhere, hcomplete, Host.absoluteOf, habsolute, bind, Except.bind,
    hwalk, Bool.false_eq_true, if_false]

/-- The search passes a directory in which the name of the entry is free. -/
theorem isPassed_below {names : List String} (hnames : names = ["w"] ∨ names = ["w", "d"])
    (hfree : (repositoryHost controlled).tree.node? (names ++ [".git"]) = none) :
    IsPassed (repositoryHost controlled) (.ofParts names) := by
  have hnul : Host.hasNul (Path.ofParts (names ++ [".git"])).text = false := by
    rcases hnames with rfl | rfl <;> decide
  have hwalk : (repositoryHost controlled).walk .target (Path.ofParts (names ++ [".git"])).text =
      .ok ((repositoryHost controlled).tree.foundAt (names ++ [".git"])) :=
    walk_below rfl hnames (by decide) (by rcases hnames with rfl | rfl <;> decide)
      (by simp [hfree])
  have habsent : (repositoryHost controlled).exists? (marker (.ofParts names)) = .ok false := by
    show (repositoryHost controlled).exists? (Path.ofParts (names ++ [".git"])) = _
    rw [Host.exists?, Host.look, Host.stat, Host.reach, hnul, hwalk, FileTree.foundAt, hfree]
    rfl
  rcases Host.exists?_cases _ (marker (.ofParts names)) with ⟨-, -, h⟩ | ⟨-, -, h⟩ | ⟨h, hlong, -⟩
  · rw [habsent] at h
    cases h
  · rw [habsent] at h
    cases h
  · exact ⟨h, hlong⟩

/-- From the inner directory the search comes to the outer one, which has the entry. -/
theorem controlledRoot_nearest_outer :
    (repositoryHost ["w"]).resolve (.ofParts ["w", "d"]) = .ok (.ofParts ["w", "d"]) ∧
      controlledRoot (repositoryHost ["w"]) (.ofParts ["w", "d"]) = .ok (.ofParts ["w"]) := by
  have hwalk : (repositoryHost ["w"]).walk .target (Path.ofParts ["w", ".git"]).text =
      .ok (.node ["w", ".git"] .directory) :=
    walk_below rfl (Or.inl rfl) (by decide) (by decide) nofun
  have hnul : Host.hasNul (Path.ofParts ["w", ".git"]).text = false := by decide
  have hstat : (repositoryHost ["w"]).stat (Path.ofParts ["w", ".git"]).text =
      .ok (["w", ".git"], .directory) := by
    rw [Host.stat, Host.reach, hnul, hwalk]
    rfl
  have hlaws := (controlledRoot_nearest (repositoryHost ["w"]) (.ofParts ["w", "d"])).2 _
    (resolve_inner ["w"])
  refine ⟨resolve_inner ["w"], (hlaws.2.1 _).2 (Or.inl ⟨1, by decide, by decide, ⟨_, _, hstat⟩,
    fun m hm => ?_⟩)⟩
  obtain rfl : m = 0 := by omega
  exact isPassed_below (Or.inr rfl) rfl

/-- Where the root has the entry and nothing below has one, the search answers with its start. -/
theorem controlled_root_passed_by :
    (repositoryHost []).resolve (.ofParts ["w", "d"]) = .ok (.ofParts ["w", "d"]) ∧
      ¬ IsControlled (repositoryHost []) (.ofParts ["w", "d"]) ∧
      ¬ IsControlled (repositoryHost []) (.ofParts ["w"]) ∧
      IsControlled (repositoryHost []) (.ofParts []) ∧
      controlledRoot (repositoryHost []) (.ofParts ["w", "d"]) = .ok (.ofParts ["w", "d"]) := by
  have hinner : IsPassed (repositoryHost []) (.ofParts ["w", "d"]) :=
    isPassed_below (Or.inr rfl) rfl
  have houter : IsPassed (repositoryHost []) (.ofParts ["w"]) := isPassed_below (Or.inl rfl) rfl
  have hroot : (repositoryHost []).stat (Path.ofParts [".git"]).text =
      .ok ([".git"], .directory) :=
    (by decide : IsPlainName ".git").stat_eq rfl nofun
  refine ⟨resolve_inner [], hinner.1, houter.1, ⟨_, _, hroot⟩,
    controlledRoot_of_climbs (resolve_inner []) (Or.inr ⟨rfl, fun n hn => ?_⟩)⟩
  have htwo : n < 2 := hn
  obtain rfl | rfl : n = 0 ∨ n = 1 := by omega
  · exact hinner
  · exact houter

end Repository

end CommandLine

end MarkupTidy
