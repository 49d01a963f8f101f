import MarkupTidy.Proofs.Toml.LineEnds
import MarkupTidy.Proofs.Toml.Sections

/-!
Documents that are written are read back: every table with all its entries, those that need no
section of their own first.
-/
namespace MarkupTidy.Toml

theorem opened_empty : Opened [] Document.empty :=
  ⟨rfl, rfl, rfl, fun _ hmem => (List.not_mem_nil hmem).elim,
    fun _ => ⟨fun _ hmem => (List.not_mem_nil hmem).elim,
      fun _ hmem => (List.not_mem_nil hmem).elim⟩⟩

theorem passes_write {root : Table} (hgenuine : Value.TableGenuine root) {text : List Char}
    (h : write root = .ok text) :
    ∃ d, Passes text Document.empty d ∧ d.root = arrangeTable root := by
  obtain ⟨plain, below, hdepth, hplain, hbelow, rfl⟩ := write_parts h
  have hname : writeSections (keyText []) root = .ok below := hbelow
  obtain ⟨d₁, d, hpasses₁, hpasses₂, hgrows⟩ := passes_contents (sectionsPass root) hplain hname
    hgenuine hdepth opened_empty
  have hheader : headerLine [] false plain below = [] := rfl
  have hnothing := Passes.nil Document.empty
  rw [← hheader] at hnothing
  refine ⟨d, hnothing.assemble hpasses₁ hpasses₂, ?_⟩
  rw [hgrows.root]
  unfold grow
  split
  · next hempty => exact (List.isEmpty_iff.1 hempty).symm
  · rfl

theorem readLines_write {root : Table} (hgenuine : Value.TableGenuine root) {text : List Char}
    (h : write root = .ok text) : readLines text = .ok (arrangeTable root) := by
  obtain ⟨d, hpasses, hroot⟩ := passes_write hgenuine h
  obtain ⟨fuel, hfuel, hread⟩ := hpasses [] (text.length + 1) (by simp)
  obtain ⟨fuel, rfl⟩ : ∃ n, fuel = n + 1 := ⟨fuel - 1, by omega⟩
  rw [List.append_nil] at hread
  have hend : readStatements (fuel + 1) d [] = .ok d := rfl
  rw [readLines, hread, hend, ← hroot]
  rfl

/-- A document that is written is read back, with its plain entries before its sections. -/
theorem read_write {root : Table} (hgenuine : Value.TableGenuine root) {text : List Char}
    (h : write root = .ok text) : read text = .ok (arrangeTable root) := by
  have hreturn : '\r' ∉ text := by
    obtain ⟨plain, below, -, hplain, hbelow, rfl⟩ := write_parts h
    exact return_notMem_assemble List.not_mem_nil (return_notMem_writePlain hplain)
      (return_notMem_writeSections root List.not_mem_nil hbelow) false
  rw [read, Text.joinLineEnds_of_no_return hreturn]
  exact readLines_write hgenuine h

end MarkupTidy.Toml
