import Mathlib.Data.List.Nodup
import Mathlib.Data.List.Perm.Subperm
import MarkupTidy.Files.Write
import MarkupTidy.Proofs.Toml.Calendar

/-!
Names of temporary files. Their numbers have eight digits, so a directory can run out of them; up to
there, one of as many names as a tree has nodes, and one more, is free. The first free name is the
same in trees that hold the same of these names.
-/
namespace MarkupTidy

theorem FileTree.length_set (tree : FileTree) (place : Location) (node : Node) :
    (tree.set place node).entries.length = tree.entries.length ∨
      (tree.set place node).entries.length = tree.entries.length + 1 := by
  have hkeys := congrArg List.length (Pairs.map_fst_set place node tree.entries)
  rw [List.length_map] at hkeys
  unfold FileTree.set
  rw [hkeys]
  split
  · exact Or.inl (List.length_map _)
  · exact Or.inr (by rw [List.length_append, List.length_map, List.length_singleton])

namespace Host

/-- The number of names for temporary files. -/
def nameCount : Nat := 10 ^ 8

theorem padded_mod {width count : Nat} (h : width ≤ count) (n : Nat) :
    Calendar.padded width (n % 10 ^ count) = Calendar.padded width n := by
  induction width with
  | zero => rfl
  | succ width ih =>
    have hcount : 10 ^ count = 10 ^ (count - width) * 10 ^ width := by
      rw [← Nat.pow_add, Nat.sub_add_cancel (Nat.le_of_succ_le h)]
    have hten : 10 ∣ 10 ^ (count - width) := dvd_pow_self 10 (by omega)
    have hdigit : n % 10 ^ count / 10 ^ width % 10 = n / 10 ^ width % 10 := by
      rw [hcount, Nat.mod_mul_left_div_self, Nat.mod_mod_of_dvd _ hten]
    have hhead : Nat.digitChar (n % 10 ^ count / Nat.pow 10 width % 10) =
        Nat.digitChar (n / Nat.pow 10 width % 10) := congrArg Nat.digitChar hdigit
    rw [Calendar.padded, Calendar.padded, ih (Nat.le_of_succ_le h), hhead]

theorem temporaryName_mod (suffix : String) (n : Nat) :
    temporaryName suffix (n % nameCount) = temporaryName suffix n := by
  rw [temporaryName, temporaryName, nameCount, padded_mod (Nat.le_refl 8)]

/-- Names with other numbers are other names, as long as the numbers have no more digits. -/
theorem temporaryName_injOn {suffix : String} {m n : Nat} (hm : m < nameCount) (hn : n < nameCount)
    (h : temporaryName suffix m = temporaryName suffix n) : m = n := by
  have hlists := congrArg String.toList h
  simp only [temporaryName, String.toList_append, String.toList_ofList, List.append_cancel_right_eq,
    List.append_cancel_left_eq] at hlists
  have hmod : m % nameCount = n % nameCount := by
    rw [nameCount, ← digitsToNat_padded, ← digitsToNat_padded, hlists]
  rwa [Nat.mod_eq_of_lt hm, Nat.mod_eq_of_lt hn] at hmod

/-- The names are plain ones, if the suffix has no slash in it. -/
theorem temporaryName_plain {suffix : String} (hslash : '/' ∉ suffix.toList) (n : Nat) :
    '/' ∉ (temporaryName suffix n).toList ∧ temporaryName suffix n ≠ "" ∧
      temporaryName suffix n ≠ "." ∧ temporaryName suffix n ≠ ".." := by
  have hlist : (temporaryName suffix n).toList =
      '.' :: 't' :: 'm' :: 'p' :: '_' :: (Calendar.padded 8 n ++ suffix.toList) := by
    simp [temporaryName]
  have hdigits : '/' ∉ Calendar.padded 8 n := fun hmem =>
    absurd (allDigits_padded 8 n '/' hmem) (by decide)
  refine ⟨?_, ?_, ?_, ?_⟩
  · rw [hlist]
    simp [hdigits, hslash]
  all_goals
    intro hname
    rw [hname] at hlist
    cases hlist

section Directory

variable {host : Host} {directory : Location} {suffix : String}

/-- Where this many names are taken, there are this many nodes. -/
theorem le_length_of_taken {count : Nat} (hcount : count ≤ nameCount)
    (h : ∀ n < count, (host.tree.node? (directory ++ [temporaryName suffix n])).isSome = true) :
    count ≤ host.tree.entries.length := by
  let names := (List.range count).map fun n => directory ++ [temporaryName suffix n]
  have hdistinct : names.Nodup := by
    refine List.Nodup.map_on (fun m hm n hn hsame => ?_) List.nodup_range
    have hname : temporaryName suffix m = temporaryName suffix n := by simpa using hsame
    exact temporaryName_injOn ((List.mem_range.1 hm).trans_le hcount)
      ((List.mem_range.1 hn).trans_le hcount) hname
  have hthere : names ⊆ host.tree.entries.map Prod.fst := by
    intro place hplace
    obtain ⟨n, hn, rfl⟩ := List.mem_map.1 hplace
    have htaken := h n (List.mem_range.1 hn)
    rw [FileTree.node?, if_neg (by simp)] at htaken
    by_contra hnot
    rw [Pairs.lookup_eq_none.2 hnot] at htaken
    cases htaken
  have hlength := (hdistinct.subperm hthere).length_le
  simpa [names] using hlength

/-- If none of as many names as there are nodes, and one more, is free, all names are taken. -/
theorem all_taken (h : ∀ n ≤ host.tree.entries.length,
      (host.tree.node? (directory ++ [temporaryName suffix n])).isSome = true) (n : Nat) :
    (host.tree.node? (directory ++ [temporaryName suffix n])).isSome = true := by
  have hmany : nameCount ≤ host.tree.entries.length := by
    by_contra hfew
    have hcount : host.tree.entries.length + 1 ≤ host.tree.entries.length :=
      le_length_of_taken (by omega) fun n hn => h n (Nat.le_of_lt_succ hn)
    omega
  rw [← temporaryName_mod]
  exact h _ ((Nat.mod_lt n (by decide)).le.trans hmany)

/-- A node more or less makes no difference to the first free name, if it has none of them. -/
theorem freshName_eq {host' : Host}
    (hsame : ∀ n, (host'.tree.node? (directory ++ [temporaryName suffix n])).isSome =
      (host.tree.node? (directory ++ [temporaryName suffix n])).isSome)
    (hlength : host'.tree.entries.length = host.tree.entries.length ∨
      host'.tree.entries.length = host.tree.entries.length + 1) :
    host'.freshName directory suffix = host.freshName directory suffix := by
  have hfree : ∀ n, (host'.tree.node? (directory ++ [temporaryName suffix n])).isNone =
      (host.tree.node? (directory ++ [temporaryName suffix n])).isNone := by
    intro n
    rw [← Option.not_isSome, hsame, Option.not_isSome]
  unfold freshName
  simp only [hfree]
  rcases hlength with hlength | hlength
  · rw [hlength]
  · rw [hlength, List.range_succ, List.find?_append]
    cases hfind : (List.range (host.tree.entries.length + 1)).find? fun n =>
        (host.tree.node? (directory ++ [temporaryName suffix n])).isNone with
    | some n => rfl
    | none =>
      have htaken : ∀ n ≤ host.tree.entries.length,
          (host.tree.node? (directory ++ [temporaryName suffix n])).isSome = true := by
        intro n hn
        have hnot := List.find?_eq_none.1 hfind n (List.mem_range.2 (Nat.lt_succ_of_le hn))
        simpa [Option.isSome_iff_ne_none] using hnot
      have hlast := all_taken htaken (host.tree.entries.length + 1)
      have hnone : (host.tree.node? (directory ++
          [temporaryName suffix (host.tree.entries.length + 1)])).isNone = false :=
        Option.isNone_eq_false_iff.2 hlast
      simp [hnone]

end Directory

end Host

end MarkupTidy
