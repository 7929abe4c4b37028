import Columnar.Json.Compact
import Columnar.Json.Document
import Columnar.Json.Library

/-!
# A library of JSON texts

`Json.standard` writes compact texts and reads them as documents. It reads more than it writes:
a record may be the array of its values, a variant without contents an object with the value `null`,
and members that are no fields are skipped, whatever their values are and however deep they nest.
-/

namespace Columnar.Json

namespace Document

/-- Reads a variant: a name, or an object of one member. -/
def variant? {n : Nat} (units contents : List String) (doc : Document) :
    Option (Variant (fun _ ↦ Document) n) :=
  match n, doc with
  | _, .text (some name) => if name ∈ units then some (.unit name) else none
  | _ + 1, .object [(some name, body)] =>
    if name ∈ contents then some (.contents name body)
    else
      match body with
      | .null => if name ∈ units then some (.unit name) else none
      | _ => none
  | _, _ => none

/-- Reads a record all of whose fields are given. -/
def fields? (names : List String) (doc : Document) : Option (List Document) := do
  (← doc.record? names).mapM id

/-- The items of an array. -/
def itemsOf? : Document → Option (List Document)
  | .array items => some items
  | _ => none

/-- The text of a string that spells one. -/
def textOf? : Document → Option String
  | .text s => s
  | _ => none

end Document

/-- The library of compact texts. -/
def standard : Library where
  unit name := .text name
  variant name value := .object [(name, value)]
  record fields := .object fields
  print := compact
  levels := 127
  Input _ := Document
  open? := Document.parse?
  variant? := Document.variant?
  record? := Document.fields?
  items? := Document.itemsOf?
  text? := Document.textOf?
  natural? bound doc := doc.natural? bound

end Columnar.Json
