import MarkupTidy.Diagnostic
import MarkupTidy.Proofs.Text.Lines

/-!
What is told of a report: its first line that is not blank, trimmed. There is one unless the report
is white space alone, so there is one in each report that is not informational.
-/
namespace MarkupTidy.Report

open Text

/-- What is told of a report is its first message, or nothing if the report is blank. -/
theorem firstMessage_cases (report : String) :
    IsFirstMessage report.toList (firstMessage report).toList ∨
      firstMessage report = "" ∧ ∀ c ∈ report.toList, isBlank c = true := by
  have hline := find_visible_line report.toList
  have hmessage : (firstMessage report).toList =
      (((lines report.toList).map trim).find? fun line => !line.isEmpty).getD [] :=
    String.toList_ofList
  cases hfind : ((lines report.toList).map trim).find? fun line => !line.isEmpty with
  | none =>
    rw [hfind] at hline hmessage
    exact Or.inr ⟨String.toList_eq_nil_iff.1 hmessage, hline⟩
  | some message =>
    rw [hfind] at hline hmessage
    rw [Option.getD_some] at hmessage
    left
    rw [hmessage]
    exact hline

theorem firstMessage_eq_empty_iff (report : String) :
    firstMessage report = "" ↔ ∀ c ∈ report.toList, isBlank c = true := by
  rcases firstMessage_cases report with hfirst | ⟨hempty, hblank⟩
  · have hne : firstMessage report ≠ "" := fun hempty =>
      hfirst.ne_nil (by rw [hempty]; rfl)
    obtain ⟨front, behind, hsplit, -, -⟩ := hfirst.place
    obtain ⟨c, others, hmessage⟩ := List.exists_cons_of_ne_nil hfirst.ne_nil
    refine iff_of_false hne fun hblank => ?_
    have hvisible : isBlank c = false := hfirst.first c (by rw [hmessage]; rfl)
    rw [hblank c (by rw [hsplit, hmessage]; simp)] at hvisible
    cases hvisible
  · exact iff_of_true hempty hblank

/-- A report that says something has a line to be told. -/
theorem firstMessage_ne_empty {report : String} (h : isInformational report = false) :
    firstMessage report ≠ "" := by
  intro hempty
  have hblank := (trim_eq_nil_iff _).2 ((firstMessage_eq_empty_iff report).1 hempty)
  rw [isInformational, hblank] at h
  cases h

/-- Nothing is told of a report exactly if it is white space alone. Otherwise the trimmed report
begins with what is told, which is part of one line, without white space at its ends; behind it
there is white space up to a line break or to the end. So something is told of every report that is
not informational. -/
theorem firstMessage_begins_report (report : String) :
    (firstMessage report = "" ↔ ∀ c ∈ report.toList, isBlank c = true) ∧
      (firstMessage report ≠ "" →
        (∀ c ∈ (firstMessage report).toList, isLineBreak c = false) ∧
          (∀ c, (firstMessage report).toList.head? = some c ∨
            (firstMessage report).toList.getLast? = some c → isBlank c = false) ∧
          ∃ behind, trim report.toList = (firstMessage report).toList ++ behind ∧
            ReachesLineEnd behind) ∧
      (isInformational report = false → firstMessage report ≠ "") := by
  refine ⟨firstMessage_eq_empty_iff report, fun hne => ?_, firstMessage_ne_empty⟩
  rcases firstMessage_cases report with hfirst | ⟨hempty, -⟩
  · refine ⟨hfirst.oneLine, fun c hend => ?_, hfirst.trim⟩
    rcases hend with hhead | hlast
    · exact hfirst.first c hhead
    · exact hfirst.last c (by rwa [List.head?_reverse])
  · exact absurd hempty hne

end MarkupTidy.Report
