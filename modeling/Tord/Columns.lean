import Mathlib.Algebra.BigOperators.Group.Finset.Basic
import Mathlib.Data.List.GetD
import Tord.Format

/-! Where the cells of the streams table stand. Widths are measured in bytes and padding
counts characters; a text has no more characters than bytes, so every cell fits. -/
namespace Tord

open Text

/-- The greatest length of a cell of the column, in bytes. -/
def columnWidth (table : List (List String)) (j : Nat) : Nat :=
  (table.map fun row => (row.getD j "").utf8ByteSize).foldr max 0

def columnOffset (table : List (List String)) (j : Nat) : Nat :=
  ∑ i ∈ Finset.range j, (columnWidth table i + 2)

theorem columnWidth_cons (row : List String) (table : List (List String)) (j : Nat) :
    columnWidth (row :: table) j = max (row.getD j "").utf8ByteSize (columnWidth table j) := rfl

theorem le_columnWidth (member : row ∈ table) (j : Nat) :
    (row.getD j "").utf8ByteSize ≤ columnWidth table j := by
  induction table with
  | nil => cases member
  | cons first table ih =>
    rw [columnWidth_cons]
    rcases List.mem_cons.mp member with rfl | later
    · exact le_max_left _ _
    · exact (ih later).trans (le_max_right _ _)

theorem getD_foldl_widths {table : List (List String)} {width : List Nat}
    (each : ∀ row ∈ table, row.length = width.length) (j : Nat) :
    (table.foldl (fun width row => List.zipWith (fun w cell => max w cell.utf8ByteSize) width row)
      width).getD j 0 = max (width.getD j 0) (columnWidth table j) := by
  induction table generalizing width with
  | nil => simp [columnWidth]
  | cons row table ih =>
    have size : (List.zipWith (fun w cell => max w cell.utf8ByteSize) width row).length =
        width.length := by
      simp [each row (.head _)]
    have here : (List.zipWith (fun w cell => max w cell.utf8ByteSize) width row).getD j 0 =
        max (width.getD j 0) (row.getD j "").utf8ByteSize := by
      have same := each row (.head _)
      by_cases inside : j < width.length
      · simp [List.getD_eq_getElem?_getD, inside, same]
      · simp [List.getD_eq_getElem?_getD, inside, same]
    rw [List.foldl_cons, ih fun other member => by rw [size, each other (.tail _ member)], here,
      columnWidth_cons, max_assoc]

section Table

variable (serde : Serde) (rows : List Value)

theorem length_row (member : row ∈ header :: rows.map (cells serde)) :
    row.length = header.length := by
  obtain ⟨_, _, -, size, -⟩ := last_cell serde rows member
  exact size

theorem getElem?_widths (inside : j < header.length) :
    (widths (header :: rows.map (cells serde)))[j]? =
      some (columnWidth (header :: rows.map (cells serde)) j) := by
  have value : (widths (header :: rows.map (cells serde))).getD j 0 = _ :=
    getD_foldl_widths (fun row member => by
      rw [length_row serde rows member, List.length_replicate]) j
  have here : j < (widths (header :: rows.map (cells serde))).length := by rwa [length_widths]
  rw [List.getD_eq_getElem _ _ here] at value
  rw [List.getElem?_eq_getElem here, value]
  simp [List.getD_eq_getElem?_getD, inside]

theorem fits_widths (member : row ∈ header :: rows.map (cells serde)) :
    List.Forall₂ (fun cell width => cell.length ≤ width) row
      (widths (header :: rows.map (cells serde))) := by
  rw [List.forall₂_iff_get]
  refine ⟨by rw [length_row serde rows member, length_widths], fun i inRow inWidths => ?_⟩
  have found := getElem?_widths serde rows (length_widths serde rows ▸ inWidths)
  rw [List.getElem?_eq_getElem inWidths] at found
  calc (row.get ⟨i, inRow⟩).length
      ≤ (row.get ⟨i, inRow⟩).utf8ByteSize := length_le_utf8ByteSize _
    _ = (row.getD i "").utf8ByteSize := by rw [List.getD_eq_getElem _ _ inRow]; rfl
    _ ≤ columnWidth (header :: rows.map (cells serde)) i := le_columnWidth member i
    _ = _ := (Option.some.inj found).symm

theorem columnStart_widths (inside : j ≤ header.length) :
    columnStart (widths (header :: rows.map (cells serde))) j =
      columnOffset (header :: rows.map (cells serde)) j := by
  induction j with
  | zero => rfl
  | succ j ih =>
    have found := getElem?_widths serde rows inside
    rw [columnOffset, Finset.sum_range_succ, ← columnOffset, ← ih (by omega), columnStart,
      List.take_add_one, found]
    simp [columnStart]

/-- In its own line, every cell of a row stands where its column starts. -/
theorem stands_of_laid {j : Nat} (member : row ∈ header :: rows.map (cells serde))
    (laid : Laid (widths (header :: rows.map (cells serde))) row line)
    (found : row[j]? = some cell) : Stands line (columnOffset (header :: rows.map (cells serde)) j) cell
      (if j + 1 < row.length then some (columnOffset (header :: rows.map (cells serde)) (j + 1))
      else none) := by
  have sized := length_row serde rows member
  have inside : j < header.length := sized ▸ (List.getElem?_eq_some_iff.mp found).1
  have stands := laid.stands (fits_widths serde rows member) found
  rw [columnStart_widths serde rows inside.le] at stands
  by_cases more : j + 1 < row.length
  · rw [if_pos more, columnStart_widths serde rows inside] at stands
    rwa [if_pos more]
  · rwa [if_neg more] at stands ⊢

end Table

/-- The text has a line for each row of the table, and in it every cell stands as it is where
its column starts. -/
def Aligned (table : List (List String)) (text : String) : Prop :=
  List.Forall₂ (fun row line => ∀ (j : Nat) (cell : String), row[j]? = some cell →
    Stands line (columnOffset table j) cell
      (if j + 1 < row.length then some (columnOffset table (j + 1)) else none)) table (lines text)

/-- Whatever the cells hold besides line breaks: there is an aligned table exactly if none of
them is longer than the formatter takes for a width. -/
theorem table_aligned_iff (serde : Serde) {rows : List Value} (busy : rows ≠ [])
    (plain : ∀ r ∈ rows, ∀ cell ∈ cells serde r, OneLine cell) :
    (∃ text, renderStreams serde rows = some text ∧
        Aligned (header :: rows.map (cells serde)) text) ↔
      ∀ r ∈ rows, ∀ cell ∈ cells serde r, Narrow cell := by
  obtain ⟨texts, whole, laid⟩ := renderStreams_laid serde busy
  have each : ∀ row ∈ header :: rows.map (cells serde), ∀ cell ∈ row, OneLine cell := by
    rw [List.forall_mem_cons, List.forall_mem_map]
    exact ⟨oneLine_header, plain⟩
  have known : List.Forall₂ (fun row line => row ∈ header :: rows.map (cells serde) ∧
      Laid (widths (header :: rows.map (cells serde))) row line) _ texts :=
    (List.forall₂_and_left _ _).mpr ⟨fun _ member => member, laid⟩
  rw [← widths_lt_iff, whole]
  constructor
  · rintro ⟨text, printed, -⟩
    by_contra wide
    rw [if_neg wide] at printed
    cases printed
  · intro narrow
    refine ⟨_, if_pos narrow, ?_⟩
    rw [Aligned, lines_of_laid laid (List.cons_ne_nil _ _) each]
    exact known.imp fun row line ⟨member, laid⟩ j cell found =>
      stands_of_laid serde rows member laid found

/-- A target with more bytes than characters and a blank at its end. -/
theorem table_aligned_accented : ∃ text top line,
    renderStreams (.of .null "null") [.object [("target", .string "é ")]] = some text ∧
      lines text = [top, line] ∧ Stands line 10 "é " (some 18) := by
  obtain ⟨text, printed, aligned⟩ := (@table_aligned_iff (.of .null "null")
    [.object [("target", .string "é ")]] (by simp) (by decide +kernel)).mpr (by decide +kernel)
  revert aligned
  unfold Aligned
  generalize shown : lines text = texts
  intro aligned
  rcases aligned with _ | ⟨-, _ | ⟨here, ⟨⟩⟩⟩
  exact ⟨text, _, _, printed, shown, here 2 "é " rfl⟩

theorem cells_target (serde : Serde) (target : String) :
    cells serde (.object [("target", .string target)]) =
      ["", "-", target, "-", "0s", "0B", "0B"] := by
  have age : humanAge 0 = "0s" := by decide +kernel
  have count : humanBytes 0 = "0B" := by decide +kernel
  simp [cells, Value.get, SortedMap.lookup, field, age, count]

/-- A target of 65536 letters, and there is no table. -/
theorem table_misaligned : ∃ target : String, target.toList = List.replicate 65536 'a' ∧
    (∀ cell ∈ cells (.of .null "null") (.object [("target", .string target)]), OneLine cell) ∧
    renderStreams (.of .null "null") [.object [("target", .string target)]] = none ∧
    ¬ ∃ text, renderStreams (.of .null "null") [.object [("target", .string target)]] = some text ∧
      Aligned [header, cells (.of .null "null") (.object [("target", .string target)])] text := by
  generalize letters : List.replicate 65536 'a' = chars
  have size : chars.length = 65536 := by rw [← letters, List.length_replicate]
  have plain : OneLine (String.ofList chars) := by
    rw [OneLine, String.toList_ofList, ← letters, List.mem_replicate]
    simp
  have wide : ¬ Narrow (String.ofList chars) := by
    have least := length_le_utf8ByteSize (String.ofList chars)
    rw [← String.length_toList, String.toList_ofList, size] at least
    exact Nat.not_lt.mpr least
  obtain ⟨texts, whole, -⟩ := @renderStreams_laid (.of .null "null")
    [.object [("target", .string (String.ofList chars))]] (by simp)
  rw [if_neg fun fit => wide ((widths_lt_iff _ _).mp fit _ (.head _) _ (by simp [cells_target]))]
    at whole
  refine ⟨String.ofList chars, String.toList_ofList, ?_, whole, by simp [whole]⟩
  rw [cells_target]
  simp +decide [plain]

end Tord
