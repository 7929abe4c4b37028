import Columnar.Column.Read
import Columnar.Value.Json

/-!
# JSON of columns

A column is shown as the array of its rows. The first row that cannot be read or shown ends it.
-/

namespace Columnar.Column

variable [Uuid.Library]

/-- The JSON of row `i`. -/
def rowToJson (c : Column) (i : Nat) : Outcome Json := do (← c.getItem i).toJson

/-- The JSON of all rows. -/
def toJson (c : Column) : Outcome Json :=
  Json.array <$> Outcome.collect c.len fun i ↦ c.rowToJson i

end Columnar.Column
