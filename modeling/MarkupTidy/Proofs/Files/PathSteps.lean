import MarkupTidy.Proofs.Files.ParentDirectories

/-!
Paths that are read from text. Their parts are names and double dots, and a walk along the text of
such a path, absolute or not, takes just these parts as its steps. So its way goes by its parent,
and ends in its name; below directories it leads to what lies there under this name.
-/
namespace MarkupTidy

namespace Path

theorem name_mem {p : Path} (hparts : p.parts ≠ []) : p.name ∈ p.parts := by
  rw [name, List.getLastD_eq_getLast?, List.getLast?_eq_some_getLast hparts]
  exact List.getLast_mem hparts

theorem dropLast_name {p : Path} (hparts : p.parts ≠ []) :
    p.parts.dropLast ++ [p.name] = p.parts := by
  rw [name, List.getLastD_eq_getLast?, List.getLast?_eq_some_getLast hparts]
  exact List.dropLast_concat_getLast hparts

theorem child_name {p : Path} (hparts : p.parts ≠ []) : p.parent.child p.name = p := by
  rw [child, parent, dropLast_name hparts]

/-- The parts are names or double dots. -/
def IsProper (p : Path) : Prop :=
  ∀ part ∈ p.parts, part ≠ "" ∧ part ≠ "." ∧ '/' ∉ part.toList

/-- A path is read from text without its empty parts and single dots. -/
theorem isProper_ofText (text : String) : (ofText text).IsProper := by
  intro part hpart
  obtain ⟨hmem, hnamed⟩ := List.mem_filter.1 hpart
  obtain ⟨piece, hpiece, rfl⟩ := List.mem_map.1 hmem
  simp only [Bool.and_eq_true, bne_iff_ne, ne_eq] at hnamed
  refine ⟨hnamed.1, hnamed.2, fun hslash => ?_⟩
  rw [String.toList_ofList] at hslash
  have hnot := Text.not_of_mem_pieces hpiece '/' hslash
  cases hnot

namespace IsProper

variable {p : Path}

theorem parent (h : p.IsProper) : p.parent.IsProper :=
  fun part hpart => h part (List.dropLast_subset _ hpart)

theorem words_text (h : p.IsProper) (hparts : p.parts ≠ []) :
    (Text.words isSlash p.text.toList).map String.ofList = p.parts := by
  have hnames : ∀ part ∈ p.parts.map String.toList, part ≠ [] ∧ ∀ c ∈ part, isSlash c = false := by
    intro part hpart
    obtain ⟨name, hname, rfl⟩ := List.mem_map.1 hpart
    obtain ⟨hne, -, hslash⟩ := h name hname
    exact ⟨by simpa using hne, fun c hc => beq_eq_false_iff_ne.2 fun heq => hslash (heq ▸ hc)⟩
  have hjoined : Text.words isSlash (String.intercalate "/" p.parts).toList =
      p.parts.map String.toList := by
    rw [String.toList_intercalate]
    exact Text.words_intercalate rfl hnames
  have htext : Text.words isSlash p.text.toList =
      Text.words isSlash (String.intercalate "/" p.parts).toList := by
    rw [text, if_neg fun hnone => hparts hnone.2, String.toList_append]
    cases p.anchor with
    | none => rfl
    | root => exact Text.words_append rfl [] _
    | doubleRoot => exact (Text.words_append rfl [] ('/' :: _)).trans (Text.words_append rfl [] _)
  rw [htext, hjoined, List.map_map]
  simp

/-- A walk along the text takes the parts as its steps. -/
theorem steps_text (h : p.IsProper) (hparts : p.parts ≠ []) : FileTree.steps p.text = p.parts := by
  obtain ⟨hne, -, hslash⟩ := h p.name (name_mem hparts)
  have hlast := getLast?_split_child p.parent hslash
  rw [child_name hparts] at hlast
  have hopen : ((split p.text).getLast? = some "") = False := by simp [hlast, hne]
  simp only [FileTree.steps, hopen, decide_false, Bool.false_and, Bool.false_eq_true, if_false]
  exact (filter_split p.text).trans (h.words_text hparts)

/-- Such a walk ends in a name, if the path does. -/
theorem endsInName (h : p.IsProper) (hparts : p.parts ≠ []) (hname : p.name ≠ "..") :
    FileTree.EndsInName (FileTree.steps p.text) := by
  obtain ⟨hne, hdot, hslash⟩ := h p.name (name_mem hparts)
  rw [← child_name hparts]
  exact FileTree.endsInName_child p.parent hslash ⟨hne, hdot, hname⟩

/-- The text of a path that is not absolute begins with a name, or is a dot. -/
theorem head_text (h : p.IsProper) (hanchor : p.anchor = .none) :
    ∃ c more, p.text.toList = c :: more ∧ c ≠ '/' := by
  rw [text, hanchor]
  cases hparts : p.parts with
  | nil => exact ⟨'.', [], by decide, by decide⟩
  | cons first rest =>
    obtain ⟨hne, -, hslash⟩ := h first (by rw [hparts]; exact List.mem_cons_self)
    obtain ⟨c, more, hfirst⟩ := List.exists_cons_of_ne_nil (String.toList_eq_nil_iff.not.2 hne)
    have hc : c ≠ '/' := by
      rintro rfl
      exact hslash (hfirst ▸ List.mem_cons_self)
    cases rest with
    | nil => exact ⟨c, more, by simp [Anchor.text, hfirst], hc⟩
    | cons next others =>
      refine ⟨c, more ++ '/' :: (String.intercalate "/" (next :: others)).toList, ?_, hc⟩
      simp [Anchor.text, hfirst]

theorem isEmpty_text (h : p.IsProper) (hanchor : p.anchor = .none) : p.text.isEmpty = false := by
  obtain ⟨c, more, htext, -⟩ := h.head_text hanchor
  rw [← Bool.not_eq_true, String.isEmpty_iff]
  rintro hnil
  rw [hnil] at htext
  cases htext

theorem walkStart_text (h : p.IsProper) (hanchor : p.anchor = .none) (here : Location) :
    FileTree.walkStart here p.text = here := by
  obtain ⟨c, more, htext, hc⟩ := h.head_text hanchor
  have hrelative : (ofText p.text).isAbsolute = false := by
    have hnone : (p.text.toList.takeWhile isSlash).length = 0 := by
      simp [htext, isSlash, hc]
    simp only [isAbsolute, ofText, anchorOf, hnone]
    rfl
  rw [FileTree.walkStart, if_neg (by simp [hrelative])]

theorem walkStart_parent (h : p.IsProper) (hanchor : p.anchor = .none) (here : Location) :
    FileTree.walkStart here p.parent.text = FileTree.walkStart here p.text :=
  (h.parent.walkStart_text hanchor here).trans (h.walkStart_text hanchor here).symm

/-- The parent of a single name is the directory that the walk begins in. -/
theorem goesBy_dot (h : p.IsProper) (hanchor : p.anchor = .none) (hparts : p.parts ≠ [])
    (hinit : p.parts.dropLast = []) : p.GoesBy p.parent := by
  have hdot : p.parent.text = "." := by rw [text, if_pos ⟨hanchor, hinit⟩]
  have hdots : FileTree.steps "." = ["."] := by decide
  refine ⟨h.walkStart_parent hanchor, h.parent.isEmpty_text hanchor, ?_, fun _ => ?_,
    [], p.parts, ["."], by simp, ?_, h.steps_text hparts, hparts⟩
  · have hsize : p.text.utf8ByteSize ≠ 0 := by
      rw [ne_eq, String.utf8ByteSize_eq_zero_iff, ← String.isEmpty_iff, h.isEmpty_text hanchor]
      exact Bool.false_ne_true
    rw [hdot]
    exact Nat.one_le_iff_ne_zero.2 hsize
  · rw [hdot]
    decide
  · rw [hdot, hdots]
    rfl

theorem goesBy_init (h : p.IsProper) (hanchor : p.anchor = .none)
    (hinit : p.parts.dropLast ≠ []) : p.GoesBy p.parent := by
  have hparts : p.parts ≠ [] := by
    rintro hnil
    rw [hnil] at hinit
    exact hinit rfl
  have hjoined : p.text = p.parent.text ++ ("/" ++ p.name) := by
    rw [text, if_neg fun hnone => hparts hnone.2, text, if_neg fun hnone => hinit hnone.2,
      ← dropLast_name hparts, String.intercalate_append_of_ne_nil hinit (List.cons_ne_nil _ _),
      String.intercalate_singleton]
    simp [Path.parent, String.append_assoc]
  refine ⟨h.walkStart_parent hanchor, h.parent.isEmpty_text hanchor, ?_, fun hnul => ?_,
    p.parts.dropLast, [p.name], [], by simp, ?_, ?_, List.cons_ne_nil _ _⟩
  · rw [hjoined, String.utf8ByteSize_append]
    exact Nat.le_add_right _ _
  · rw [hjoined, Host.hasNul_append, Bool.or_eq_false_iff] at hnul
    exact hnul.1
  · rw [h.parent.steps_text hinit, List.append_nil]
    rfl
  · rw [h.steps_text hparts, dropLast_name hparts]

/-- The way of a path goes by its parent. -/
theorem goesBy_parent (h : p.IsProper) (hparts : p.parts ≠ []) : p.GoesBy p.parent := by
  by_cases hanchor : p.anchor = .none
  · by_cases hinit : p.parts.dropLast = []
    · exact h.goesBy_dot hanchor hparts hinit
    · exact h.goesBy_init hanchor hinit
  · exact Path.goesBy_parent hanchor hparts (by rw [h.steps_text hparts]; exact hparts)

end IsProper

theorem isProper_ofParts {parts : List String} (h : ∀ part ∈ parts, IsPlainName part) :
    (ofParts parts).IsProper :=
  fun part hpart => ⟨(h part hpart).1, (h part hpart).2.1, (h part hpart).2.2.2.1⟩

end Path

/-- A name below directories leads to what lies there. -/
theorem Host.walk_names {host : Host} {names : List String} {purpose : Purpose}
    (hnames : ∀ name ∈ names, IsPlainName name) (hsome : names ≠ [])
    (hdirectories : ∀ n < names.length,
      (host.tree.node? (names.take n)).any Node.isDirectory = true)
    (hlong : FileTree.isPathTooLong (Path.ofParts names).text = false)
    (hother : ∀ target, host.tree.node? names ≠ some (.link target)) :
    host.walk purpose (Path.ofParts names).text = .ok (host.tree.foundAt names) := by
  rw [Host.walk, FileTree.walk_text (by exact Anchor.noConfusion), hlong,
    (Path.isProper_ofParts hnames).steps_text hsome]
  exact FileTree.walkFrom_names hnames hsome hdirectories hother FileTree.linkLimit

end MarkupTidy
