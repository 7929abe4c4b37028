import Columnar.Json.Standard
import Columnar.LogicalType.Serialized

/-!
# JSON of types

Types as `Json.standard` writes and reads them. `LogicalType.toJson` is the form of a type with the
members of all objects in the order of their names, where the text has them as they are declared.
-/

namespace Columnar

open Json (Document)

/-- Reads an identifier from a document, of which `room` arrays and objects may be opened. -/
def TypeId.ofDocument? (room : Nat) (doc : Document) : Option TypeId :=
  TypeId.ofInput? Json.standard (n := room) doc

namespace LogicalType

/-- The number of arrays and objects that may be open at once in a text. -/
def defaultRoom : Nat := Json.standard.levels

/-- The JSON of a type. -/
def toJson (t : LogicalType) : Json := (t.form Json.standard).sorted

/-- Reads a type from a document, of which `room` arrays and objects may be opened. -/
def ofDocument? (room : Nat) (doc : Document) : Option LogicalType :=
  ofInput? Json.standard room doc

/-- The type that a JSON text stands for. -/
def parse? (text : String) : Option LogicalType := deserialize? Json.standard text

end LogicalType

end Columnar
