import MarkupTidy.Proofs.Files.Resolved
import MarkupTidy.Proofs.Resolver.OverrideFile
import Mathlib.Logic.Function.Iterate

/-!
The search for an override file, directory by directory. It goes from a directory to the one above
until that is the same one, so it ends at the root. On the way the first file of the name is taken;
but a name that the system finds too long ends the search, whatever lies above.
-/
namespace MarkupTidy

namespace Path

theorem iterate_parent (p : Path) (n : Nat) :
    parent^[n] p = ⟨p.anchor, p.parts.take (p.parts.length - n)⟩ := by
  induction n with
  | zero => rw [Function.iterate_zero, id, Nat.sub_zero, List.take_length]
  | succ n ih =>
    rw [Function.iterate_succ_apply', ih, parent, List.dropLast_eq_take, List.take_take,
      List.length_take]
    congr 2
    omega

/-- Above a path there is the root at last. -/
theorem iterate_parent_eq_root {p : Path} {n : Nat} (h : p.parts.length ≤ n) :
    parent^[n] p = ⟨p.anchor, []⟩ := by
  rw [iterate_parent, Nat.sub_eq_zero_of_le h, List.take_zero]

/-- Only a path without parts is its own parent. -/
theorem parent_eq_self_iff (p : Path) : p.parent = p ↔ p.parts = [] := by
  refine ⟨fun h => ?_, fun h => ?_⟩
  · have hlength := congrArg (fun path : Path => path.parts.length) h
    simp only [parent, List.length_dropLast] at hlength
    exact List.eq_nil_of_length_eq_zero (by omega)
  · obtain ⟨anchor, parts⟩ := p
    cases h
    rfl

/-- A path is followed by the paths above its parent, with the parent, if it has another one. -/
theorem upward_eq_cons (p : Path) :
    p.upward = p :: if p.parent = p then [] else p.parent.upward := by
  have hself : p = parent^[0] p := rfl
  have hall : ∀ path : Path,
      path.upward = (List.range (path.parts.length + 1)).map fun n => parent^[n] path := by
    intro path
    exact List.map_congr_left fun n _ => (iterate_parent path n).symm
  rw [hall, List.range_succ_eq_map, List.map_cons, List.map_map]
  refine congrArg (p :: ·) ?_
  split
  · next htop => rw [(parent_eq_self_iff p).1 htop]; rfl
  · next hbelow =>
    have hlength : p.parent.parts.length + 1 = p.parts.length := by
      have hne := List.length_pos_iff.2 (mt (parent_eq_self_iff p).2 hbelow)
      rw [parent, List.length_dropLast]
      omega
    rw [hall, hlength]
    rfl

end Path

namespace FileTree

/-- A text without a slash is a single step, from where one stands. -/
theorem steps_of_notMem {text : String} (hslash : '/' ∉ text.toList) (hne : text ≠ "") :
    steps text = [text] := by
  have hsplit : Path.split text = [text] := by
    have hpieces : Text.pieces Path.isSlash text.toList = [text.toList] :=
      Text.pieces_of_notMem hslash
    rw [Path.split, hpieces, List.map_singleton, String.ofList_toList]
  simp [steps, hsplit, hne]

theorem walkStart_of_notMem {text : String} (hslash : '/' ∉ text.toList) (here : Location) :
    walkStart here text = here := by
  have hfront : text.toList.takeWhile Path.isSlash = [] := by
    cases htext : text.toList with
    | nil => rfl
    | cons first rest =>
      refine List.takeWhile_cons_of_neg fun hfirst => hslash ?_
      rw [htext, ← beq_iff_eq.1 hfirst]
      exact List.mem_cons_self
  have hrelative : (Path.ofText text).isAbsolute = false := by
    rw [Path.isAbsolute, Path.ofText, Path.anchorOf, hfront]
    rfl
  rw [walkStart, hrelative]
  rfl

/-- A walk to what a path names, or to a link, ends at these refusals. -/
theorem walkFrom_refusal {tree : FileTree} {purpose : Purpose} (hpurpose : purpose ≠ .fileTarget)
    {links : Nat} {here : Location} {left : List String} {refusal : Refusal}
    (h : tree.walkFrom purpose links here left = .error refusal) :
    refusal ∈ [.noEntry, .notADirectory, .tooManyLinks, .nameTooLong] := by
  fun_induction walkFrom tree purpose links here left <;> simp_all

theorem walk_refusal {tree : FileTree} {purpose : Purpose} (hpurpose : purpose ≠ .fileTarget)
    {directory : Location} {text : String} {refusal : Refusal}
    (h : tree.walk purpose directory text = .error refusal) :
    refusal ∈ [.noEntry, .notADirectory, .tooManyLinks, .nameTooLong] := by
  unfold walk at h
  split at h
  · cases h
    decide
  · split at h
    · cases h
      decide
    · dsimp only at h
      split at h
      · simp only [walkFromMissing] at h
        split at h <;> cases h
        decide
      · exact walkFrom_refusal hpurpose h

end FileTree

namespace Host

/-- A file lies at the path, or at the end of the links that lie there. -/
def HasFile (host : Host) (path : Path) : Prop :=
  ∃ place file, host.stat path.text = .ok (place, .file file)

/-- The system finds the path too long, or a name on the walk along it. -/
def IsOverlong (host : Host) (path : Path) : Prop :=
  hasNul path.text = false ∧ host.walk .target path.text = .error .nameTooLong

variable {host : Host} {path : Path}

/-- What looking at a path comes to. -/
theorem look_cases (host : Host) (path : Path) :
    (∃ place node, host.stat path.text = .ok (place, node) ∧ ¬ host.IsOverlong path ∧
        host.look path = .ok (some node)) ∨
      (∃ fault, host.stat path.text = .error fault) ∧
        (host.IsOverlong path ∧ host.look path = .error (.refused ⟨.nameTooLong, [path.text]⟩) ∨
          ¬ host.IsOverlong path ∧ host.look path = .ok none) := by
  simp only [IsOverlong, look, stat, reach]
  cases hasNul path.text with
  | true => simp [meansAbsent]
  | false =>
    cases hwalk : host.walk .target path.text with
    | error refusal =>
      have hrefusal := FileTree.walk_refusal Purpose.noConfusion hwalk
      simp only [List.mem_cons, List.not_mem_nil, or_false] at hrefusal
      rcases hrefusal with rfl | rfl | rfl | rfl <;> simp [meansAbsent, Except.mapError]
    | ok found => cases found <;> simp [meansAbsent, Except.mapError]

/-- What looking for a file at a path comes to. -/
theorem isFile?_cases (host : Host) (path : Path) :
    (host.HasFile path ∧ ¬ host.IsOverlong path ∧ host.isFile? path = .ok true) ∨
      (¬ host.HasFile path ∧ host.IsOverlong path ∧
        host.isFile? path = .error (.refused ⟨.nameTooLong, [path.text]⟩)) ∨
      (¬ host.HasFile path ∧ ¬ host.IsOverlong path ∧ host.isFile? path = .ok false) := by
  unfold HasFile isFile?
  rcases host.look_cases path with ⟨place, node, hstat, hlong, hlook⟩ |
    ⟨⟨fault, hstat⟩, ⟨hlong, hlook⟩ | ⟨hlong, hlook⟩⟩
  · cases node <;> simp [hstat, hlong, hlook, Except.map]
  · simp [hstat, hlong, hlook, Except.map]
  · simp [hstat, hlong, hlook, Except.map]

theorem isFile?_eq_true_iff : host.isFile? path = .ok true ↔ host.HasFile path := by
  rcases isFile?_cases host path with ⟨hfile, -, h⟩ | ⟨hfile, -, h⟩ | ⟨hfile, -, h⟩ <;>
    simp [h, hfile]

theorem isFile?_eq_error_iff (fault : Fault) :
    host.isFile? path = .error fault ↔
      host.IsOverlong path ∧ fault = .refused ⟨.nameTooLong, [path.text]⟩ := by
  rcases isFile?_cases host path with ⟨-, hlong, h⟩ | ⟨-, hlong, h⟩ | ⟨-, hlong, h⟩ <;>
    simp [h, hlong, eq_comm]

theorem IsOverlong.not_hasFile (h : host.IsOverlong path) : ¬ host.HasFile path := by
  intro hfile
  have hrefused := (isFile?_eq_error_iff _).2 ⟨h, rfl⟩
  rw [isFile?_eq_true_iff.2 hfile] at hrefused
  cases hrefused

theorem isFile?_eq_false_iff :
    host.isFile? path = .ok false ↔ ¬ host.HasFile path ∧ ¬ host.IsOverlong path := by
  rcases isFile?_cases host path with ⟨hfile, hlong, h⟩ | ⟨hfile, hlong, h⟩ | ⟨hfile, hlong, h⟩ <;>
    simp [h, hfile, hlong]

end Host

namespace Override

/-- The search from a directory upward, one directory after the other. -/
inductive Searches (host : Host) (name : String) : Path → Except Fault (Option Path) → Prop
  | found (directory : Path) (h : host.isFile? (candidate name directory) = .ok true) :
    Searches host name directory (.ok (some (candidate name directory)))
  | refused (directory : Path) (fault : Fault)
    (h : host.isFile? (candidate name directory) = .error fault) :
    Searches host name directory (.error fault)
  | top (directory : Path) (h : host.isFile? (candidate name directory) = .ok false)
    (htop : directory.parent = directory) : Searches host name directory (.ok none)
  | up {directory : Path} {outcome : Except Fault (Option Path)}
    (h : host.isFile? (candidate name directory) = .ok false)
    (hbelow : directory.parent ≠ directory) (hrest : Searches host name directory.parent outcome) :
    Searches host name directory outcome

variable {host : Host} {name : String}

/-- One round of the search. -/
theorem findIn_upward (host : Host) (name : String) (directory : Path) :
    findIn host name directory.upward =
      match host.isFile? (candidate name directory) with
      | .error fault => .error fault
      | .ok true => .ok (some (candidate name directory))
      | .ok false =>
        if directory.parent = directory then .ok none
        else findIn host name directory.parent.upward := by
  rw [Path.upward_eq_cons, findIn_cons]
  cases host.isFile? (candidate name directory) with
  | error fault => rfl
  | ok isFile =>
    cases isFile with
    | true => rfl
    | false =>
      dsimp only
      split <;> rfl

theorem length_parent_lt {directory : Path} (h : directory.parent ≠ directory) :
    directory.parent.parts.length < directory.parts.length := by
  have hne := List.length_pos_iff.2 (mt (Path.parent_eq_self_iff directory).2 h)
  rw [Path.parent, List.length_dropLast]
  omega

/-- The search ends in each directory, and always with what is found in the directories upward. -/
theorem searches_iff (directory : Path) (outcome : Except Fault (Option Path)) :
    Searches host name directory outcome ↔ findIn host name directory.upward = outcome := by
  constructor
  · intro h
    induction h with
    | found directory h => rw [findIn_upward, h]
    | refused directory fault h => rw [findIn_upward, h]
    | top directory h htop => rw [findIn_upward, h]; exact if_pos htop
    | up h hbelow _ ih => rw [findIn_upward, h]; exact (if_neg hbelow).trans ih
  · rintro rfl
    induction hlength : directory.parts.length using Nat.strongRecOn
      generalizing directory with
    | ind length ih =>
      rw [findIn_upward]
      split
      · next fault h => exact .refused directory fault h
      · next h => exact .found directory h
      · next h =>
        split
        · next htop => exact .top directory h htop
        · next hbelow =>
          exact .up h hbelow (ih _ (hlength ▸ length_parent_lt hbelow) directory.parent rfl)

/-- Nothing keeps the search from going on above the directory. -/
def Passes (host : Host) (name : String) (directory : Path) : Prop :=
  ¬ host.HasFile (candidate name directory) ∧ ¬ host.IsOverlong (candidate name directory)

/-- The search ends in the directory. -/
inductive StopsAt (host : Host) (name : String) (directory : Path) :
    Except Fault (Option Path) → Prop
  | file (h : host.HasFile (candidate name directory)) :
    StopsAt host name directory (.ok (some (candidate name directory)))
  | overlong (h : host.IsOverlong (candidate name directory)) :
    StopsAt host name directory
      (.error (.refused ⟨.nameTooLong, [(candidate name directory).text]⟩))

theorem StopsAt.not_passes {directory : Path} {outcome : Except Fault (Option Path)}
    (h : StopsAt host name directory outcome) : ¬ Passes host name directory := by
  cases h with
  | file h => exact fun hpasses => hpasses.1 h
  | overlong h => exact fun hpasses => hpasses.2 h

theorem StopsAt.searches {directory : Path} {outcome : Except Fault (Option Path)}
    (h : StopsAt host name directory outcome) : Searches host name directory outcome := by
  cases h with
  | file h => exact .found directory (Host.isFile?_eq_true_iff.2 h)
  | overlong h => exact .refused directory _ ((Host.isFile?_eq_error_iff _).2 ⟨h, rfl⟩)

/-- A search that ends has stopped at the first directory that does not pass, or all pass. -/
theorem Searches.stops {directory : Path} {outcome : Except Fault (Option Path)}
    (h : Searches host name directory outcome) :
    (∃ n, StopsAt host name (Path.parent^[n] directory) outcome ∧
        ∀ m < n, Passes host name (Path.parent^[m] directory)) ∨
      (outcome = .ok none ∧ ∀ n, Passes host name (Path.parent^[n] directory)) := by
  induction h with
  | found directory h => exact Or.inl ⟨0, .file (Host.isFile?_eq_true_iff.1 h), by simp⟩
  | refused directory fault h =>
    obtain ⟨hlong, rfl⟩ := (Host.isFile?_eq_error_iff fault).1 h
    exact Or.inl ⟨0, .overlong hlong, by simp⟩
  | top directory h htop =>
    refine Or.inr ⟨rfl, fun n => ?_⟩
    rw [Function.iterate_fixed htop]
    exact Host.isFile?_eq_false_iff.1 h
  | up h _ _ ih =>
    have hpasses := Host.isFile?_eq_false_iff.1 h
    rcases ih with ⟨n, hstops, hbelow⟩ | ⟨hnone, hall⟩
    · exact Or.inl ⟨n + 1, hstops, Nat.forall_lt_succ_left.2 ⟨hpasses, hbelow⟩⟩
    · refine Or.inr ⟨hnone, fun n => ?_⟩
      cases n with
      | zero => exact hpasses
      | succ n => exact hall n

/-- A search stops at the first directory that does not pass. -/
theorem StopsAt.searches_of_passes {outcome : Except Fault (Option Path)} {n : Nat}
    {directory : Path} (h : StopsAt host name (Path.parent^[n] directory) outcome)
    (hbelow : ∀ m < n, Passes host name (Path.parent^[m] directory)) :
    Searches host name directory outcome := by
  induction n generalizing directory with
  | zero => exact h.searches
  | succ n ih =>
    obtain ⟨hfirst, hrest⟩ := Nat.forall_lt_succ_left.1 hbelow
    refine .up (Host.isFile?_eq_false_iff.2 hfirst) (fun htop => ?_) (ih h hrest)
    rw [Function.iterate_fixed htop] at h
    exact h.not_passes hfirst

theorem searches_none_of_passes {directory : Path}
    (h : ∀ n, Passes host name (Path.parent^[n] directory)) :
    Searches host name directory (.ok none) := by
  have hsearch : Searches host name directory _ := (searches_iff directory _).2 rfl
  rcases hsearch.stops with ⟨n, hstops, -⟩ | ⟨hnone, -⟩
  · exact absurd (h n) hstops.not_passes
  · exact hnone ▸ hsearch

/-- What a search comes to, told by the paths that come up. -/
theorem searches_iff_stops (directory : Path) (outcome : Except Fault (Option Path)) :
    Searches host name directory outcome ↔
      (∃ n, StopsAt host name (Path.parent^[n] directory) outcome ∧
          ∀ m < n, Passes host name (Path.parent^[m] directory)) ∨
        (outcome = .ok none ∧ ∀ n, Passes host name (Path.parent^[n] directory)) := by
  refine ⟨Searches.stops, ?_⟩
  rintro (⟨n, hstops, hbelow⟩ | ⟨rfl, hall⟩)
  · exact hstops.searches_of_passes hbelow
  · exact searches_none_of_passes hall

/-- A search goes through the directories from the resolved start upward, each the one above the
last one, and ends with the root. It answers with the first file of the name, where links are
followed and anything else of that name is passed over, and with nothing exactly if no directory has
one; unless the system finds a path too long that comes before, or a name on the way along it. -/
theorem find_nearest (host : Host) (start : Path) (name : String) :
    (∀ fault, host.resolve start = .error fault → find host start name = .error fault) ∧
      ∀ top, host.resolve start = .ok top →
        (∀ outcome, Searches host name top outcome ↔ find host start name = outcome) ∧
        (top.isAbsolute = true ∧
          ∀ n, top.parts.length ≤ n → Path.parent^[n] top = ⟨top.anchor, []⟩) ∧
        (∀ file, find host start name = .ok (some file) ↔
          ∃ n, file = candidate name (Path.parent^[n] top) ∧ host.HasFile file ∧
            ∀ m < n, Passes host name (Path.parent^[m] top)) ∧
        (find host start name = .ok none ↔ ∀ n, Passes host name (Path.parent^[n] top)) ∧
        ∀ fault, find host start name = .error fault ↔
          ∃ n, host.IsOverlong (candidate name (Path.parent^[n] top)) ∧
            fault = .refused ⟨.nameTooLong, [(candidate name (Path.parent^[n] top)).text]⟩ ∧
            ∀ m < n, Passes host name (Path.parent^[m] top) := by
  refine ⟨fun fault hfault => by rw [find, hfault]; rfl, fun top htop => ?_⟩
  have hsearch : ∀ outcome, Searches host name top outcome ↔ find host start name = outcome := by
    intro outcome
    rw [searches_iff, find, htop]
    rfl
  have hrooted : top.isAbsolute = true := by
    simpa [Path.isAbsolute] using Host.anchor_resolve htop
  refine ⟨hsearch, ⟨hrooted, fun n => Path.iterate_parent_eq_root⟩, fun file => ?_, ?_,
    fun fault => ?_⟩ <;> rw [← hsearch, searches_iff_stops]
  · constructor
    · rintro (⟨n, hstops, hbelow⟩ | ⟨hnone, -⟩)
      · cases hstops with
        | file h => exact ⟨n, rfl, h, hbelow⟩
      · cases hnone
    · rintro ⟨n, rfl, h, hbelow⟩
      exact Or.inl ⟨n, .file h, hbelow⟩
  · constructor
    · rintro (⟨n, hstops, -⟩ | ⟨-, hall⟩)
      · cases hstops
      · exact hall
    · exact fun hall => Or.inr ⟨rfl, hall⟩
  · constructor
    · rintro (⟨n, hstops, hbelow⟩ | ⟨hnone, -⟩)
      · cases hstops with
        | overlong h => exact ⟨n, h, rfl, hbelow⟩
      · cases hnone
    · rintro ⟨n, h, rfl, hbelow⟩
      exact Or.inl ⟨n, .overlong h, hbelow⟩

/-- An override file in the root, and something under its name in a directory there. -/
def optionsHost (below : Node) : Host where
  tree := ⟨[(["d"], .directory), (["d", ".htmlTidy"], below),
    ([".htmlTidy"], .file ⟨[0x7B, 0x7D], 0o644, none⟩)]⟩
  directory := []
  searchPath := ""

theorem resolve_directory (below : Node) :
    (optionsHost below).resolve (.ofParts ["d"]) = .ok (.ofParts ["d"]) :=
  (by decide : IsPlainName "d").resolve_eq nofun

theorem hasFile_root (below : Node) : (optionsHost below).HasFile (.ofParts [".htmlTidy"]) :=
  ⟨_, _, (by decide : IsPlainName ".htmlTidy").stat_eq rfl nofun⟩

/-- The walk to what lies in the directory, and where it leads from there. -/
theorem walk_below (below : Node) :
    (optionsHost below).walk .target (Path.ofParts ["d", ".htmlTidy"]).text =
      match below with
      | .link target => (optionsHost below).tree.walkFrom .target 39
          (FileTree.walkStart ["d"] target) (FileTree.steps target)
      | node => .ok (.node ["d", ".htmlTidy"] node) := by
  have hlong : FileTree.isPathTooLong (Path.ofParts ["d", ".htmlTidy"]).text = false := by decide
  have hsteps : FileTree.steps (Path.ofParts ["d", ".htmlTidy"]).text = ["d", ".htmlTidy"] := by
    decide
  have hdirectory : FileTree.isNameTooLong "d" = false := by decide
  have hname : FileTree.isNameTooLong ".htmlTidy" = false := by decide
  rw [Host.walk, FileTree.walk_text (by exact Anchor.noConfusion), hlong, hsteps]
  cases below <;>
    simp [FileTree.walkFrom, FileTree.node?, Node.isDirectory, optionsHost, hdirectory, hname,
      FileTree.linkLimit, List.lookup_cons]

theorem candidate_directory :
    candidate ".htmlTidy" (.ofParts ["d"]) = .ofParts ["d", ".htmlTidy"] := by
  decide

/-- A directory of the name is passed over. -/
theorem find_nearest_directory :
    find (optionsHost .directory) (.ofParts ["d"]) ".htmlTidy" =
      .ok (some (.ofParts [".htmlTidy"])) := by
  have hlaws := (find_nearest (optionsHost .directory) (.ofParts ["d"]) ".htmlTidy").2 _
    (resolve_directory .directory)
  refine (hlaws.2.2.1 _).2 ⟨1, by decide, hasFile_root .directory, fun m hm => ?_⟩
  obtain rfl : m = 0 := by omega
  have hnul : Host.hasNul (Path.ofParts ["d", ".htmlTidy"]).text = false := by decide
  refine Host.isFile?_eq_false_iff.1 ?_
  rw [Function.iterate_zero, id, candidate_directory]
  simp only [Host.isFile?, Host.look, Host.stat, Host.reach, hnul, walk_below .directory]
  rfl

theorem isOverlong_below {target : String} (hslash : '/' ∉ target.toList)
    (hblank : ¬ (target = "" ∨ target = ".")) (hup : ¬ target = "..")
    (hlong : FileTree.isNameTooLong target = true) :
    (optionsHost (.link target)).IsOverlong (.ofParts ["d", ".htmlTidy"]) := by
  have hhere : ((optionsHost (.link target)).tree.node? ["d"]).any Node.isDirectory = true := rfl
  refine ⟨by decide, ?_⟩
  rw [walk_below]
  dsimp only
  rw [FileTree.walkStart_of_notMem hslash, FileTree.steps_of_notMem hslash (not_or.1 hblank).1,
    FileTree.walkFrom, if_pos hhere, if_neg hblank, if_neg hup, if_neg (by simp), if_pos hlong]

/-- A name of more octets than a name can have. -/
def overlongName : String := String.ofList (List.replicate 256 'n')

theorem slash_notMem_overlongName : '/' ∉ overlongName.toList := by
  have htext : overlongName.toList = List.replicate 256 'n' := String.toList_ofList
  rw [htext]
  exact fun hmem => absurd (List.eq_of_mem_replicate hmem) (by decide)

/-- A link whose target has too long a name ends the search, although there is a file above. -/
theorem overlong_link_escapes :
    (optionsHost (.link overlongName)).resolve (.ofParts ["d"]) = .ok (.ofParts ["d"]) ∧
      ¬ (optionsHost (.link overlongName)).HasFile (candidate ".htmlTidy" (.ofParts ["d"])) ∧
      (optionsHost (.link overlongName)).HasFile
        (candidate ".htmlTidy" (Path.ofParts ["d"]).parent) ∧
      find (optionsHost (.link overlongName)) (.ofParts ["d"]) ".htmlTidy" =
        .error (.refused ⟨.nameTooLong, ["/d/.htmlTidy"]⟩) := by
  have habove : candidate ".htmlTidy" (Path.ofParts ["d"]).parent = .ofParts [".htmlTidy"] := by
    decide
  have htext : (candidate ".htmlTidy" (.ofParts ["d"])).text = "/d/.htmlTidy" := by decide
  have hresolve := resolve_directory (.link overlongName)
  have hlong := candidate_directory ▸
    isOverlong_below slash_notMem_overlongName (by decide +kernel) (by decide +kernel)
      (by decide +kernel)
  have hstops := (StopsAt.overlong hlong).searches
  refine ⟨hresolve, hlong.not_hasFile, habove ▸ hasFile_root _, ?_⟩
  rw [find, hresolve, ← htext]
  exact (searches_iff _ _).1 hstops

end Override

end MarkupTidy
