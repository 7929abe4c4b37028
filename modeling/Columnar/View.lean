import Columnar.Column.Json
import Columnar.Column.Trace

/-!
# Views of chunks

A chunk seen as a list of typed columns, all with as many rows as the chunk. A view exists only for
chunks that keep within the row limit; its columns are opened when they are asked for, so a column
that cannot be opened does not stand in the way of the others.
-/

namespace Columnar

/-- A chunk together with the configuration its columns are opened with. -/
structure View where
  chunk : Chunk
  config : DecodeConfig

namespace View

/-- A view of a chunk with a configuration that admits it. -/
def ofChunk (chunk : Chunk) (config : DecodeConfig) : Outcome View := do
  config.validate
  Outcome.require (chunk.rowCount ≤ config.vectorSize) (.data .rowCount)
  return ⟨chunk, config⟩

/-- What `ofChunk` reports. -/
def openEvents (chunk : Chunk) (config : DecodeConfig) : List Event :=
  Column.eventsOf (ofChunk chunk config) fun view ↦
    [.chunkOpened view.chunk.columns.length view.chunk.rowCount]

variable (view : View)

/-- The number of columns. -/
def columnCount : Nat := view.chunk.columns.length

/-- The number of rows of every column. -/
def rowCount : Nat := view.chunk.rowCount

/-- The vector of column `index`. -/
def columnVector (index : Nat) : Outcome Nat := do
  Outcome.require (index < view.columnCount) (.argument .columnIndex)
  view.chunk.column index

/-- The type of column `index`. -/
def columnType (index : Nat) : Outcome LogicalType := do
  view.chunk.logicalType (← view.columnVector index)

/-- The types of all columns. -/
def columnTypes : Outcome (List LogicalType) := (List.range view.columnCount).mapM view.columnType

/-- The SQL texts of the types of all columns. -/
def columnLabels : Outcome (List String) := (·.map (·.label)) <$> view.columnTypes

/-- Opens column `index`. -/
def column (index : Nat) : Outcome Column := do
  Column.decodeReported view.chunk view.config (← view.columnVector index) view.rowCount

/-- What opening column `index` reports. -/
def columnEvents (index : Nat) : List Event :=
  Column.eventsOf (view.columnVector index) fun id ↦
    .columnDecoding index id :: Column.reportedEvents view.chunk view.config id view.rowCount

/-- Opens all columns. -/
def columns : Outcome (List Column) := (List.range view.columnCount).mapM view.column

/-- What opening the columns from `index` on reports, of which there are `count`. A column that
cannot be opened is the last one. -/
def columnsEventsFrom (index : Nat) : Nat → List Event
  | 0 => []
  | count + 1 =>
    view.columnEvents index ++
      Column.eventsOf (view.column index) fun _ ↦ columnsEventsFrom (index + 1) count

/-- What opening all columns reports. -/
def columnsEvents : List Event := view.columnsEventsFrom 0 view.columnCount

section Json

variable [Uuid.Library]

/-- The JSON of row `i` of opened columns: the array of its values. -/
def rowOf (columns : List Column) (i : Nat) : Outcome Json :=
  Json.array <$> columns.mapM (·.rowToJson i)

/-- The JSON of row `i` of all columns. -/
def rowToJson (i : Nat) : Outcome Json := do rowOf (← view.columns) i

/-- The JSON of the chunk: the array of its rows. -/
def toJson : Outcome Json := do
  let columns ← view.columns
  Json.array <$> Outcome.collect view.rowCount fun i ↦ rowOf columns i

end Json

end View

end Columnar
