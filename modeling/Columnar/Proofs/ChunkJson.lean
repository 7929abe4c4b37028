import Columnar.Proofs.Opened
import Columnar.Scalar.UuidStandard
import Columnar.View

/-!
# The three ways to show a chunk

A chunk is shown as the array of its rows, a row as the array of its values, and a column as the
array of the values in it. The chunk opens its columns once and walks through its rows; showing a
single row opens all columns again.

All columns have as many rows as the chunk (`View.len_of_column`), so the three are one table
(`View.toJson_agree`): the rows of the chunk are the rows shown one by one
(`View.toJson_eq_collect`), and the cells of a row are what the columns show in that row. If one cell
cannot be shown, neither can the chunk, nor its row, nor its column.
-/

namespace Columnar

/-- The JSON of a column is the array of the JSON of its rows. -/
theorem Column.toJson_eq_ok_iff [Uuid.Library] {c : Column} {json : Json} :
    c.toJson = .ok json ↔ ∃ items : List Json, json = .array items ∧ items.length = c.len ∧
      ∀ i item, items[i]? = some item → c.rowToJson i = .ok item := by
  simp only [toJson, map_eq_ok_iff, Outcome.collect_eq_ok_iff_getElem?]
  exact exists_congr fun items ↦ and_comm.trans (and_congr_left fun _ ↦ eq_comm)

theorem Column.exists_toJson_iff [Uuid.Library] {c : Column} :
    (∃ json, c.toJson = .ok json) ↔ ∀ i < c.len, ∃ item, c.rowToJson i = .ok item := by
  rw [toJson, exists_map_eq_ok_iff, Outcome.exists_collect_iff]

namespace View

variable {view : View} {columns : List Column}

/-- A column has the rows of the chunk. -/
theorem len_of_column {j : Nat} {c : Column} (h : view.column j = .ok c) :
    c.len = view.rowCount := by
  obtain ⟨id, -, h⟩ := bind_eq_ok_iff.1 h
  obtain ⟨t, -, h⟩ := bind_eq_ok_iff.1 h
  exact (Column.isOpened_of_decodeAt view.chunk.counts_true h trivial).len_eq

theorem lt_of_column {j : Nat} {c : Column} (h : view.column j = .ok c) : j < view.columnCount := by
  obtain ⟨id, hid, -⟩ := bind_eq_ok_iff.1 h
  obtain ⟨u, hlt, -⟩ := bind_eq_ok_iff.1 hid
  simpa using hlt

/-! ### Opening all columns -/

theorem exists_columns_iff :
    (∃ columns, view.columns = .ok columns) ↔
      ∀ j < view.columnCount, ∃ c, view.column j = .ok c := by
  simp only [View.columns, exists_mapM_eq_ok_iff, List.mem_range]

/-- The opened columns are those that are opened one by one. -/
theorem getElem?_columns_iff (h : view.columns = .ok columns) {j : Nat} {c : Column} :
    columns[j]? = some c ↔ view.column j = .ok c := by
  obtain ⟨hlen, hcolumns⟩ := List.forall₂_iff_get.1 (mapM_eq_ok_iff.1 h)
  rw [List.length_range] at hlen
  have hget : ∀ (hj : j < columns.length), view.column j = .ok columns[j] := fun hj ↦ by
    simpa using hcolumns j (by simpa [hlen] using hj) hj
  constructor
  · intro hc
    obtain ⟨hj, rfl⟩ := List.getElem?_eq_some_iff.1 hc
    exact hget hj
  · intro hc
    have hj : j < columns.length := hlen ▸ lt_of_column hc
    rw [List.getElem?_eq_getElem hj, ← Except.ok.inj ((hget hj).symm.trans hc)]

theorem mem_columns_iff (h : view.columns = .ok columns) {c : Column} :
    c ∈ columns ↔ ∃ j, view.column j = .ok c := by
  simp only [List.mem_iff_getElem?, getElem?_columns_iff h]

theorem length_columns (h : view.columns = .ok columns) : columns.length = view.columnCount := by
  simpa using (mapM_eq_ok_iff.1 h).length_eq.symm

/-! ### Rows -/

section Shown

variable [Uuid.Library]

/-- The JSON of a row is the array of what the columns show in it. -/
theorem rowOf_eq_ok_iff {i : Nat} {json : Json} :
    rowOf columns i = .ok json ↔ ∃ cells : List Json, json = .array cells ∧
      List.Forall₂ (fun c cell ↦ c.rowToJson i = .ok cell) columns cells := by
  simp only [rowOf, map_eq_ok_iff, mapM_eq_ok_iff]
  exact exists_congr fun cells ↦ and_comm.trans (and_congr_left fun _ ↦ eq_comm)

theorem exists_rowOf_iff {i : Nat} :
    (∃ json, rowOf columns i = .ok json) ↔ ∀ c ∈ columns, ∃ cell, c.rowToJson i = .ok cell := by
  rw [rowOf, exists_map_eq_ok_iff, exists_mapM_eq_ok_iff]

/-- Opening the columns again for each row makes no difference. -/
theorem rowToJson_eq_rowOf (h : view.columns = .ok columns) (i : Nat) :
    view.rowToJson i = rowOf columns i := by
  rw [rowToJson, h, ok_bind]

/-- The chunk is shown as its rows are, one by one, and fails as the first of them that does. -/
theorem toJson_eq_collect (h : view.columns = .ok columns) :
    view.toJson = Json.array <$> Outcome.collect view.rowCount fun i ↦ view.rowToJson i := by
  simp only [toJson, h, ok_bind, rowToJson_eq_rowOf h]

/-! ### The table -/

/-- All rows can be shown if and only if all columns can: either way there is a cell for every row
and every column. -/
theorem exists_rows_iff_exists_columns (h : view.columns = .ok columns) :
    (∀ i < view.rowCount, ∃ row, view.rowToJson i = .ok row) ↔
      ∀ j c, view.column j = .ok c → ∃ json, c.toJson = .ok json := by
  simp only [rowToJson_eq_rowOf h, exists_rowOf_iff, mem_columns_iff h, Column.exists_toJson_iff]
  constructor
  · intro hrows j c hc i hi
    exact hrows i (len_of_column hc ▸ hi) c ⟨j, hc⟩
  · rintro hcolumns i hi c ⟨j, hc⟩
    exact hcolumns j c hc i ((len_of_column hc).symm ▸ hi)

/-- A column shows as many items as there are rows, and in each row what is shown of it there. -/
theorem exists_items_of_column {j : Nat} {c : Column} (hc : view.column j = .ok c)
    (hshown : ∃ json, c.toJson = .ok json) :
    ∃ items, c.toJson = .ok (.array items) ∧ items.length = view.rowCount ∧
      ∀ i cell, i < view.rowCount → c.rowToJson i = .ok cell → items[i]? = some cell := by
  obtain ⟨_, hjson⟩ := hshown
  obtain ⟨items, rfl, hcount, hitem⟩ := Column.toJson_eq_ok_iff.1 hjson
  rw [len_of_column hc] at hcount
  refine ⟨items, hjson, hcount, fun i cell hi hcell ↦ ?_⟩
  have hget := List.getElem?_eq_getElem (hcount ▸ hi)
  rw [hget, Except.ok.inj ((hitem i _ hget).symm.trans hcell)]

/-- The cells of a row are those of the columns, one of each. -/
theorem exists_cells_of_row (h : view.columns = .ok columns) {i : Nat} {row : Json}
    (hrow : view.rowToJson i = .ok row) :
    ∃ cells : List Json, row = .array cells ∧ cells.length = view.columnCount ∧
      ∀ j cell, cells[j]? = some cell → ∃ c, view.column j = .ok c ∧ c.rowToJson i = .ok cell := by
  obtain ⟨cells, rfl, hforall⟩ := rowOf_eq_ok_iff.1 (rowToJson_eq_rowOf h i ▸ hrow)
  refine ⟨cells, rfl, hforall.length_eq.symm.trans (length_columns h), fun j cell hcell ↦ ?_⟩
  obtain ⟨hj, rfl⟩ := List.getElem?_eq_some_iff.1 hcell
  have hj' : j < columns.length := hforall.length_eq ▸ hj
  exact ⟨columns[j], (getElem?_columns_iff h).1 (List.getElem?_eq_getElem hj'), hforall.get hj' hj⟩

/-- A chunk whose columns can all be opened is shown if all its rows are, and if all its columns are.
Row `i` of it is then what is shown of row `i` alone, and the cell of that row in column `j` is the
item `i` of what is shown of column `j` alone. -/
theorem toJson_agree (hopen : ∀ j < view.columnCount, ∃ c, view.column j = .ok c) :
    ((∃ json, view.toJson = .ok json) ↔ ∀ i < view.rowCount, ∃ row, view.rowToJson i = .ok row) ∧
      ((∃ json, view.toJson = .ok json) ↔
        ∀ j c, view.column j = .ok c → ∃ json, c.toJson = .ok json) ∧
      ∀ json, view.toJson = .ok json →
        ∃ rows : List Json, json = .array rows ∧ rows.length = view.rowCount ∧
          ∀ i row, rows[i]? = some row → view.rowToJson i = .ok row ∧
            ∃ cells : List Json, row = .array cells ∧ cells.length = view.columnCount ∧
              ∀ j cell, cells[j]? = some cell → ∃ (c : Column) (items : List Json),
                view.column j = .ok c ∧ c.toJson = .ok (.array items) ∧
                  items.length = view.rowCount ∧ items[i]? = some cell := by
  obtain ⟨columns, hcolumns⟩ := exists_columns_iff.2 hopen
  have hrows : (∃ json, view.toJson = .ok json) ↔
      ∀ i < view.rowCount, ∃ row, view.rowToJson i = .ok row := by
    rw [toJson_eq_collect hcolumns, exists_map_eq_ok_iff, Outcome.exists_collect_iff]
  have hshown := hrows.trans (exists_rows_iff_exists_columns hcolumns)
  refine ⟨hrows, hshown, fun json hjson ↦ ?_⟩
  have hitems := hshown.1 ⟨json, hjson⟩
  rw [toJson_eq_collect hcolumns] at hjson
  obtain ⟨rows, hcollect, rfl⟩ := map_eq_ok_iff.1 hjson
  obtain ⟨hlen, hget⟩ := Outcome.collect_eq_ok_iff_getElem?.1 hcollect
  refine ⟨rows, rfl, hlen, fun i row hrow ↦ ⟨hget i row hrow, ?_⟩⟩
  have hi : i < view.rowCount := hlen ▸ (List.getElem?_eq_some_iff.1 hrow).1
  obtain ⟨cells, rfl, hcount, hcells⟩ := exists_cells_of_row hcolumns (hget i row hrow)
  refine ⟨cells, rfl, hcount, fun j cell hcell ↦ ?_⟩
  -- The cell and the item of the column are the same thing: what the column shows in row `i`.
  obtain ⟨c, hc, hcell⟩ := hcells j cell hcell
  obtain ⟨items, hjson, hcount, hitem⟩ := exists_items_of_column hc (hitems j c hc)
  exact ⟨c, items, hc, hjson, hcount, hitem i cell hi hcell⟩

end Shown

/-- Two rows of a number and a list of numbers. -/
def numbersAndLists : View where
  chunk := {
    vectors := #[
      { type := LogicalType.tagType, data := #[1, 2] },
      { type := LogicalType.tagType, data := #[7, 8, 9] },
      { type := .list LogicalType.tagType
        data := ([0, 1, 1, 2].flatMap (LittleEndian.ofNat 8)).toArray
        children := [1]
        childCount := 3 }]
    columns := [0, 2]
    rowCount := 2 }
  config := {}

/-- The table of numbers and lists has the rows and the columns that are shown one by one. -/
theorem numbersAndLists_agree :
    (∀ j < numbersAndLists.columnCount, ∃ c, numbersAndLists.column j = .ok c) ∧
      numbersAndLists.toJson = .ok (.array
        [.array [.int 1, .array [.int 7]], .array [.int 2, .array [.int 8, .int 9]]]) ∧
      (∀ i < 2, ∃ row, numbersAndLists.rowToJson i = .ok row) ∧
      (∀ j c, numbersAndLists.column j = .ok c → ∃ json, c.toJson = .ok json) ∧
      numbersAndLists.rowToJson 1 = .ok (.array [.int 2, .array [.int 8, .int 9]]) ∧
      ∃ (c : Column) (items : List Json), numbersAndLists.column 1 = .ok c ∧
        c.toJson = .ok (.array items) ∧ items[1]? = some (.array [.int 8, .int 9]) := by
  have hopen : ∀ j < numbersAndLists.columnCount, ∃ c, numbersAndLists.column j = .ok c := by
    rintro (_ | _ | j) hj
    · exact ⟨_, rfl⟩
    · exact ⟨_, rfl⟩
    · exact absurd hj (by change ¬ j + 2 < 2; omega)
  have hjson : numbersAndLists.toJson = .ok (.array
      [.array [.int 1, .array [.int 7]], .array [.int 2, .array [.int 8, .int 9]]]) := by rfl
  obtain ⟨hrows, hcolumns, htable⟩ := toJson_agree hopen
  obtain ⟨rows, heq, -, hcells⟩ := htable _ hjson
  obtain rfl := Json.array.inj heq
  obtain ⟨hrow, cells, heq, -, hcell⟩ := hcells 1 _ rfl
  obtain rfl := Json.array.inj heq
  obtain ⟨c, items, hc, hitems, -, hitem⟩ := hcell 1 _ rfl
  exact ⟨hopen, hjson, hrows.1 ⟨_, hjson⟩, hcolumns.1 ⟨_, hjson⟩, hrow, c, items, hc, hitems, hitem⟩

end View

end Columnar
