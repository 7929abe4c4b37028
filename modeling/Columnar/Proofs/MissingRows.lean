import Columnar.Proofs.ChunkJson
import Columnar.Proofs.Safety

/-!
# Rows that a chunk does not have

A row of a chunk is shown by asking every column for its value in that row, and it is the columns
that know how many rows there are. Each of them has as many as the chunk (`View.len_of_column`), so
a row past the last one is refused by the first column (`Column.rowToJson_of_le`), unless a column
cannot be opened, and then for that reason. Neither breaks off.

A chunk without columns has nothing that could refuse a row. It shows the empty array past its rows,
too, so it is the columns that decide whether a row is refused (`View.refused_iff_of_rowCount_le`).
-/

namespace Columnar

/-- A row past the end of a column is refused. -/
theorem Column.rowToJson_of_le [Uuid.Library] {c : Column} {i : Nat} (h : c.len ≤ i) :
    c.rowToJson i = Outcome.refuse (.argument .rowIndex) := by
  rw [rowToJson, getItem_of_le h]
  rfl

namespace View

variable {view : View} {columns : List Column} {i : Nat}

/-- Opening a column does not break off. -/
theorem column_unbroken (index : Nat) : (view.column index).Unbroken := by
  have hvector : (view.columnVector index).Unbroken := by
    refine (Outcome.unbroken_require _ _).bind fun _ _ ↦ ?_
    rw [Chunk.column]
    split <;> simp
  exact hvector.bind fun _ _ ↦ (Chunk.vector_unbroken.map _).bind fun _ _ ↦ Column.decodeAt_unbroken

theorem columns_unbroken : view.columns.Unbroken := .mapM fun index _ ↦ column_unbroken index

/-- What opened columns show of a row past the end is what the first of them says, if there is
one. -/
theorem rowOf_of_rowCount_le [Uuid.Library] (hcolumns : view.columns = .ok columns)
    (hi : view.rowCount ≤ i) :
    rowOf columns i =
      if view.columnCount = 0 then .ok (.array []) else Outcome.refuse (.argument .rowIndex) := by
  rw [← length_columns hcolumns]
  cases columns with
  | nil => rfl
  | cons c rest =>
    obtain ⟨j, hc⟩ := (mem_columns_iff hcolumns).1 List.mem_cons_self
    rw [rowOf, List.mapM_cons, Column.rowToJson_of_le (len_of_column hc ▸ hi)]
    rfl

/-- A row past the end of a chunk is refused exactly if the chunk has columns: for the row, if they
can all be opened, and otherwise for what opening them is refused for. A chunk without columns shows
the row as an empty array. -/
theorem refused_iff_of_rowCount_le [Uuid.Library] (hi : view.rowCount ≤ i) :
    ((∃ cause, view.rowToJson i = Outcome.refuse cause) ↔ 0 < view.columnCount) ∧
      (view.columnCount = 0 → view.rowToJson i = .ok (.array [])) ∧
      (∀ columns, view.columns = .ok columns → 0 < view.columnCount →
        view.rowToJson i = Outcome.refuse (.argument .rowIndex)) ∧
      ∀ failure, view.columns = .error failure → view.rowToJson i = .error failure := by
  have hopened : ∀ columns, view.columns = .ok columns → view.rowToJson i =
      if view.columnCount = 0 then .ok (.array []) else Outcome.refuse (.argument .rowIndex) :=
    fun columns h ↦ (rowToJson_eq_rowOf h i).trans (rowOf_of_rowCount_le h hi)
  have hfailed : ∀ failure, view.columns = .error failure → view.rowToJson i = .error failure :=
    fun failure h ↦ by rw [rowToJson, h]; rfl
  have hempty : view.columnCount = 0 → view.rowToJson i = .ok (.array []) := by
    intro hzero
    have hnil : view.columns = .ok [] := by rw [View.columns, hzero]; rfl
    rw [hopened [] hnil, if_pos hzero]
  refine ⟨⟨?_, fun hpos ↦ ?_⟩, hempty,
    fun columns h hpos ↦ (hopened columns h).trans (if_neg hpos.ne'), hfailed⟩
  · rintro ⟨cause, hcause⟩
    refine Nat.pos_of_ne_zero fun hzero ↦ ?_
    rw [hempty hzero] at hcause
    cases hcause
  · cases hcolumns : view.columns with
    | ok columns => exact ⟨_, (hopened columns hcolumns).trans (if_neg hpos.ne')⟩
    | error failure =>
      cases failure with
      | error cause => exact ⟨cause, hfailed _ hcolumns⟩
      | breach detail => exact absurd hcolumns (columns_unbroken detail)

/-- Three rows of no columns. -/
def noColumns : View := ⟨{ rowCount := 3 }, {}⟩

/-- The chunk without columns is accepted and shows a row that it does not have. The one with
columns does not. -/
theorem noColumns_not_refused :
    ofChunk noColumns.chunk noColumns.config = .ok noColumns ∧ noColumns.rowCount ≤ 7 ∧
      noColumns.rowToJson 7 = .ok (.array []) ∧
      (¬ ∃ cause, noColumns.rowToJson 7 = Outcome.refuse cause) ∧
      numbersAndLists.rowCount ≤ 7 ∧
      ∃ cause, numbersAndLists.rowToJson 7 = Outcome.refuse cause := by
  have hnone : noColumns.rowCount ≤ 7 := by decide
  have hsome : numbersAndLists.rowCount ≤ 7 := by decide
  obtain ⟨hrefused, hempty, -⟩ := refused_iff_of_rowCount_le hnone
  exact ⟨rfl, hnone, hempty rfl, fun h ↦ absurd (hrefused.1 h) (by decide), hsome,
    (refused_iff_of_rowCount_le hsome).1.2 (by decide)⟩

end View

end Columnar
