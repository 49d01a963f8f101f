import MarkupTidy.Files.Write
import MarkupTidy.Proofs.Toml.Calendar

/-!
Operations on files fail by refusals of the system alone, as long as no name on the way has a NUL in
it. A path from a text without NUL has no such name, and no step of replacing a file brings one in
but the directory that the host works in.
-/
namespace MarkupTidy

theorem mem_intercalate_iff {c : Char} {separator : List Char} (h : c ∉ separator)
    (parts : List (List Char)) :
    c ∈ List.intercalate separator parts ↔ ∃ part ∈ parts, c ∈ part := by
  induction parts with
  | nil => simp [List.intercalate]
  | cons part rest ih =>
    cases rest with
    | nil => simp [List.intercalate]
    | cons next more =>
      have hcons : List.intercalate separator (part :: next :: more) =
          part ++ (separator ++ List.intercalate separator (next :: more)) := by
        simp [List.intercalate, List.intersperse]
      rw [hcons, List.mem_append, List.mem_append, ih]
      simp [h]

namespace Host

theorem hasNul_iff (text : String) : hasNul text = true ↔ '\x00' ∈ text.toList := by
  simp [hasNul]

theorem hasNul_append (s t : String) : hasNul (s ++ t) = (hasNul s || hasNul t) := by
  rw [Bool.eq_iff_iff, Bool.or_eq_true]
  simp only [hasNul_iff, String.toList_append, List.mem_append]

end Host

namespace Path

/-- A name on the path has a NUL in it. -/
def namesNul (p : Path) : Bool := p.parts.any Host.hasNul

theorem hasNul_text (p : Path) : Host.hasNul p.text = p.namesNul := by
  have hanchor : Host.hasNul p.anchor.text = false := by cases p.anchor <;> decide
  have hparts : Host.hasNul (String.intercalate "/" p.parts) = p.namesNul := by
    rw [Bool.eq_iff_iff, Host.hasNul_iff, String.toList_intercalate,
      mem_intercalate_iff (by decide)]
    constructor
    · rintro ⟨chars, hchars, hnul⟩
      obtain ⟨part, hpart, rfl⟩ := List.mem_map.mp hchars
      exact List.any_eq_true.mpr ⟨part, hpart, (Host.hasNul_iff part).mpr hnul⟩
    · intro h
      obtain ⟨part, hpart, hnul⟩ := List.any_eq_true.mp h
      exact ⟨_, List.mem_map_of_mem hpart, (Host.hasNul_iff part).mp hnul⟩
  unfold text
  split
  · rename_i h
    simp only [namesNul, h.2]
    decide
  · rw [Host.hasNul_append, hanchor, hparts, Bool.false_or]

theorem namesNul_parent {p : Path} (h : p.namesNul = false) : p.parent.namesNul = false := by
  simp only [namesNul, parent, List.any_eq_false] at h ⊢
  exact fun part hpart => h part (List.dropLast_subset _ hpart)

theorem namesNul_child (p : Path) (name : String) :
    (p.child name).namesNul = (p.namesNul || Host.hasNul name) := by
  simp [namesNul, child]

theorem hasNul_name {p : Path} (h : p.namesNul = false) : Host.hasNul p.name = false := by
  cases hlast : p.parts.getLast? with
  | none => simp only [name, List.getLastD_eq_getLast?, hlast]; decide
  | some last =>
    simp only [namesNul, List.any_eq_false, Bool.not_eq_true] at h
    simpa [name, List.getLastD_eq_getLast?, hlast] using h last (List.mem_of_getLast? hlast)

theorem hasNul_suffix {p : Path} (h : p.namesNul = false) : Host.hasNul p.suffix = false := by
  have hname := hasNul_name h
  rw [Bool.eq_false_iff, Ne, Host.hasNul_iff] at hname ⊢
  simp only [suffix]
  split
  · rw [String.toList_ofList, List.mem_cons, List.mem_reverse]
    rintro (hdot | hbehind)
    · cases hdot
    · exact hname (List.mem_reverse.mp (List.takeWhile_subset _ hbehind))
  · simp

end Path

namespace Host

/-- Only the system makes the operation fail. -/
def FailsByRefusal {α : Type} (result : Except Fault α) : Prop :=
  ∀ fault, result = .error fault → ∃ refused, fault = .refused refused

namespace FailsByRefusal

section

variable {α β : Type}

theorem ok (value : α) : FailsByRefusal (.ok value : Except Fault α) := fun _ h => by cases h

theorem refused (cause : Refused) :
    FailsByRefusal (.error (.refused cause) : Except Fault α) := by
  rintro fault ⟨⟩
  exact ⟨cause, rfl⟩

/-- The failure of a step is that of the operation. -/
theorem error {result : Except Fault α} {fault : Fault} (h : FailsByRefusal result)
    (hfault : result = .error fault) : FailsByRefusal (.error fault : Except Fault β) := by
  rintro _ ⟨⟩
  exact h fault hfault

end

theorem reach (host : Host) (purpose : Purpose) {path : String}
    (paths : List String) (h : hasNul path = false) :
    FailsByRefusal (host.reach purpose path paths) := by
  simp only [Host.reach, h, Bool.false_eq_true, if_false]
  cases host.walk purpose path with
  | ok found => exact .ok found
  | error refusal => exact .refused _

theorem stat (host : Host) {path : String} (h : hasNul path = false) :
    FailsByRefusal (host.stat path) := by
  have hreach := reach host .target [path] h
  unfold Host.stat
  split
  · rename_i fault heq
    exact hreach.error heq
  · exact .refused _
  · exact .ok _

theorem readOctets (host : Host) {path : Path} (h : path.namesNul = false) :
    FailsByRefusal (host.readOctets path) := by
  have hstat := stat host ((Path.hasNul_text path).trans h)
  unfold Host.readOctets
  split
  · rename_i fault heq
    exact hstat.error heq
  · split
    · exact .ok _
    · exact .refused _
  · exact .refused _

theorem workingPath (host : Host) : FailsByRefusal host.workingPath := by
  unfold Host.workingPath
  split
  · exact .ok _
  · exact .refused _

theorem absolute (host : Host) (path : Path) :
    FailsByRefusal (host.absolute path) := by
  have hworking := workingPath host
  unfold Host.absolute
  split
  · exact .ok _
  · cases hpath : host.workingPath with
    | ok start => exact .ok _
    | error fault => exact hworking.error hpath

theorem makeDirectory (host : Host) {path : Path} (h : path.namesNul = false) :
    FailsByRefusal (host.makeDirectory path).1 := by
  have hreach := reach host .link [path.text] ((Path.hasNul_text path).trans h)
  unfold Host.makeDirectory
  split
  · rename_i fault heq
    exact hreach.error heq
  · exact .refused _
  · exact .ok _

theorem orPresent (path : Path) {change : Change PUnit}
    (h : FailsByRefusal change.1) : FailsByRefusal (orPresent path change).1 := by
  unfold Host.orPresent
  split
  · split
    · exact .ok _
    · exact h
  · exact h

theorem makeDirectories (host : Host) (path : Path) (h : path.namesNul = false) :
    FailsByRefusal (host.makeDirectories path).1 := by
  fun_induction Host.makeDirectories host path with
  | case1 host path paths host' hmade hroot => exact .refused _
  | case2 host path paths host' hmade hroot above host'' habove ih =>
    exact .orPresent path (.makeDirectory host'' h)
  | case3 host path paths host' hmade hroot habove ih => exact ih (Path.namesNul_parent h)
  | case4 host path hmade => exact .orPresent path (.makeDirectory host h)

theorem createTemporary (host : Host) {name : String} (h : hasNul name = false) :
    FailsByRefusal (host.createTemporary name).1 := by
  have hreach := reach host .link [name] h
  unfold Host.createTemporary
  split
  · exact .refused _
  · rename_i fault heq
    exact hreach.error heq
  · exact .refused _
  · exact .ok _

theorem renameOver (host : Host) (temporary : Location) (paths : List String) {target : Path}
    (h : target.namesNul = false) :
    FailsByRefusal (host.renameOver temporary paths target).1 := by
  have hreach := reach host .link paths ((Path.hasNul_text target).trans h)
  unfold Host.renameOver
  split
  · exact .refused _
  · rename_i fault heq _
    exact hreach.error heq
  · split
    · exact .refused _
    · split
      · exact .refused _
      · exact .ok _
      · exact .ok _

theorem fillAndRename (host : Host) (temporary : Location) (name : String) {target : Path}
    (octets : Text.Utf8.Octets) (h : target.namesNul = false) :
    FailsByRefusal (host.fillAndRename temporary name target octets).1 := by
  unfold Host.fillAndRename
  split
  · exact .refused _
  · dsimp only
    split
    · exact .refused _
    · exact .renameOver _ temporary _ h

theorem withoutTemporary (temporary : Location) {change : Change PUnit}
    (h : FailsByRefusal change.1) : FailsByRefusal (withoutTemporary temporary change).1 := by
  unfold Host.withoutTemporary
  split
  · exact h
  · exact h

theorem setMode (host : Host) {path : Path} (mode : Nat) (h : path.namesNul = false) :
    FailsByRefusal (host.setMode path mode).1 := by
  have hstat := stat host ((Path.hasNul_text path).trans h)
  unfold Host.setMode
  split
  · exact .ok _
  · exact .ok _
  · rename_i fault heq
    exact hstat.error heq

end FailsByRefusal

/-! The name of the temporary file. -/

theorem directory_makeDirectory (host : Host) (path : Path) :
    (host.makeDirectory path).2.directory = host.directory := by
  unfold makeDirectory
  split <;> rfl

theorem directory_orPresent (path : Path) (change : Change PUnit) :
    (orPresent path change).2.directory = change.2.directory := by
  unfold orPresent
  split
  · split <;> rfl
  · rfl

theorem directory_makeDirectories (host : Host) (path : Path) :
    (host.makeDirectories path).2.directory = host.directory := by
  fun_induction Host.makeDirectories host path with
  | case1 host path paths host' hmade hroot =>
    rw [← directory_makeDirectory host path, hmade]
    rfl
  | case2 host path paths host' hmade hroot above host'' habove ih =>
    rw [directory_orPresent, directory_makeDirectory, ← directory_makeDirectory host path, hmade,
      ← ih, habove]
  | case3 host path paths host' hmade hroot habove ih =>
    rw [ih, ← directory_makeDirectory host path, hmade]
  | case4 host path hmade => rw [directory_orPresent, directory_makeDirectory]

theorem any_hasNul_descend {here : Location} {parts : List String}
    (hhere : here.any hasNul = false) (hparts : parts.any hasNul = false) :
    (FileTree.descend here parts).any hasNul = false := by
  induction parts generalizing here with
  | nil => exact hhere
  | cons part rest ih =>
    rw [List.any_cons, Bool.or_eq_false_iff] at hparts
    refine ih ?_ hparts.2
    dsimp only
    split
    · rw [List.any_eq_false] at hhere ⊢
      exact fun name hname => hhere name (List.dropLast_subset _ hname)
    · split
      · exact hhere
      · simp [hhere, hparts.1]

theorem namesNul_absolute {host : Host} {path directory : Path}
    (hnames : host.directory.any hasNul = false) (hpath : path.namesNul = false)
    (h : host.absolute path = .ok directory) : directory.namesNul = false := by
  unfold absolute at h
  split at h
  · cases h
    exact any_hasNul_descend rfl hpath
  · unfold workingPath at h
    split at h
    · cases h
      exact any_hasNul_descend hnames hpath
    · cases h

theorem hasNul_padded (width n : Nat) :
    hasNul (String.ofList (Calendar.padded width n)) = false := by
  rw [Bool.eq_false_iff, Ne, hasNul_iff, String.toList_ofList]
  intro hnul
  have hdigit := allDigits_padded width n _ hnul
  cases hdigit

theorem hasNul_freshName (host : Host) (directory : Location) {suffix : String}
    (h : hasNul suffix = false) : hasNul (host.freshName directory suffix) = false := by
  have hmark : hasNul ".tmp_" = false := by decide
  simp only [freshName, temporaryName, hasNul_append, hmark, hasNul_padded, h, Bool.or_self]

namespace FailsByRefusal

theorem replaceBeside {host : Host} {path : Path} (octets : Text.Utf8.Octets)
    (hnames : host.directory.any hasNul = false) (h : path.namesNul = false) :
    FailsByRefusal (host.replaceBeside path octets).1 := by
  have habsolute := absolute host path.parent
  unfold Host.replaceBeside
  split
  · rename_i fault heq
    exact habsolute.error heq
  · rename_i directory heq
    -- The temporary file may lie in the directory that the host works in.
    have hdirectory := namesNul_absolute hnames (Path.namesNul_parent h) heq
    have hname : hasNul
        (directory.child (host.freshName directory.parts path.suffix)).text = false := by
      rw [Path.hasNul_text, Path.namesNul_child, hdirectory,
        hasNul_freshName host directory.parts (Path.hasNul_suffix h), Bool.or_self]
    have hcreate := createTemporary host hname
    dsimp only
    split
    · rename_i fault host' hmade
      exact hcreate.error (congrArg Prod.fst hmade)
    · exact .withoutTemporary _ (.fillAndRename _ _ _ octets h)

theorem replaceFile {host : Host} {path : Path} (octets : Text.Utf8.Octets)
    (hnames : host.directory.any hasNul = false) (h : path.namesNul = false) :
    FailsByRefusal (host.replaceFile path octets).1 := by
  have hparents := makeDirectories host path.parent (Path.namesNul_parent h)
  have hdirectory := directory_makeDirectories host path.parent
  unfold Host.replaceFile
  split
  · exact .refused _
  · split
    · rename_i host' hmade
      rw [hmade] at hdirectory
      exact .replaceBeside octets (hdirectory ▸ hnames) h
    · exact hparents

/-- Giving a file another content fails by refusals of the system alone. -/
theorem overwriteFile {host : Host} {path : Path} (octets : Text.Utf8.Octets)
    (hnames : host.directory.any hasNul = false) (h : path.namesNul = false) :
    FailsByRefusal (host.overwriteFile path octets).1 := by
  have hstat := stat host ((Path.hasNul_text path).trans h)
  have hreplace := replaceFile octets hnames h
  unfold Host.overwriteFile
  split
  · rename_i fault heq
    exact hstat.error heq
  · split
    · exact .setMode _ _ h
    · exact hreplace

end FailsByRefusal

end Host

end MarkupTidy
