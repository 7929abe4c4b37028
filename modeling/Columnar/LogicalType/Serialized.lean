import Columnar.Json.Library
import Columnar.LogicalType.Basic

/-!
# Types as texts

A type is stored as a text by a library (`Json.Library`), from what is declared about it: the word of
its kind, and the names of its parameters in their order. `LogicalType.serialize` is the text, and
`LogicalType.deserialize?` reads a type from one.

Reading follows the same declarations. Each step of it opens one array or object of the text, so the
recursion is on the number of those that may still be opened.
-/

namespace Columnar

open Json (Library)

/-- Reads an identifier. -/
def TypeId.ofInput? (lib : Library) {n : Nat} (input : lib.Input n) : Option TypeId :=
  match lib.variant? (TypeId.all.map TypeId.word) [] input with
  | some (.unit word) => TypeId.ofWord? word
  | _ => none

namespace LogicalType

variable (lib : Library)

/-! ### Writing -/

mutual

/-- The form that a type is written in. -/
def form : LogicalType → Json
  | .fixed kind => lib.unit kind.typeId.word
  | .string kind => lib.unit kind.typeId.word
  | .decimal t =>
    lib.variant "Decimal" (lib.record
      [("width", .int t.width.toNat), ("scale", .int t.scale.toNat)])
  | .enumeration t =>
    lib.variant "Enum" (lib.record [("values", .array (t.values.toList.map .text)),
      ("internal_type", lib.unit t.internalType.word)])
  | .list element => lib.variant "List" (lib.record [("element", element.form)])
  | .struct fields =>
    lib.variant "Struct" (lib.record [("entries", .array (partForms "name" fields))])
  | .map key value =>
    lib.variant "Map" (lib.record [("key", key.form), ("value", value.form)])
  | .array element length =>
    lib.variant "Array" (lib.record [("element", element.form), ("length", .int length.toNat)])
  | .union alternatives =>
    lib.variant "Union" (lib.record [("alternatives", .array (partForms "tag" alternatives))])
  | .other id => lib.variant "Other" (lib.unit id.word)

/-- The forms of named types; `nameKey` is what the name is called. -/
def partForms (nameKey : String) : List (String × LogicalType) → List Json
  | [] => []
  | (name, t) :: rest =>
    lib.record [(nameKey, .text name), ("logical_type", t.form)] :: partForms nameKey rest

end

/-- The text that a type is stored as. -/
def serialize (t : LogicalType) : String := lib.print (t.form lib)

/-! ### Reading -/

/-- The type without parameters that a word stands for. -/
def ofWord? (word : String) : Option LogicalType := do
  match ← ofTypeId? (← TypeId.ofWord? word) with
  | .other _ => none
  | t => some t

/-- The words of types without parameters. -/
def plainWords : List String :=
  (TypeId.all.map TypeId.word).filter fun word ↦ (ofWord? word).isSome

/-- The words of types with parameters. -/
def formWords : List String :=
  ["Decimal", "Enum", "List", "Struct", "Map", "Array", "Union", "Other"]

/-- Reads an array of texts. -/
def textsOf? : {n : Nat} → lib.Input n → Option (List String)
  | 0, _ => none
  | _ + 1, input => do (← lib.items? input).mapM lib.text?

/-- Reads the parameters of a type that has no types among them. -/
def leafOf? {n : Nat} (word : String) (body : lib.Input (n + 1)) : Option LogicalType :=
  match word with
  | "Decimal" => do
    let [width, scale] ← lib.record? ["width", "scale"] body | none
    return .decimal ⟨UInt8.ofNat (← lib.natural? UInt8.size width),
      UInt8.ofNat (← lib.natural? UInt8.size scale)⟩
  | "Enum" => do
    let [values, internalType] ← lib.record? ["values", "internal_type"] body | none
    return .enumeration ⟨(← textsOf? lib values).toArray, ← TypeId.ofInput? lib internalType⟩
  | _ => none

mutual

/-- Reads a type. -/
def ofInput? (n : Nat) (input : lib.Input n) : Option LogicalType :=
  match n, lib.variant? plainWords formWords input with
  | _, none => none
  | _, some (.unit word) => ofWord? word
  | n + 1, some (.contents word body) => contentsOf? n word body

/-- Reads what a type with parameters holds. -/
def contentsOf? (n : Nat) (word : String) (body : lib.Input n) : Option LogicalType :=
  if word = "Other" then (TypeId.ofInput? lib body).map .other
  else
    match n, body with
    | 0, _ => none
    | n + 1, body =>
      match word with
      | "List" => do
        let [element] ← lib.record? ["element"] body | none
        return .list (← ofInput? n element)
      | "Array" => do
        let [element, length] ← lib.record? ["element", "length"] body | none
        return .array (← ofInput? n element) (UInt64.ofNat (← lib.natural? UInt64.size length))
      | "Map" => do
        let [key, value] ← lib.record? ["key", "value"] body | none
        return .map (← ofInput? n key) (← ofInput? n value)
      | "Struct" => do
        let [entries] ← lib.record? ["entries"] body | none
        return .struct (← partsOf? n "name" entries)
      | "Union" => do
        let [alternatives] ← lib.record? ["alternatives"] body | none
        return .union (← partsOf? n "tag" alternatives)
      | word => leafOf? lib word body

/-- Reads an array of named types. -/
def partsOf? (n : Nat) (nameKey : String) (input : lib.Input n) :
    Option (List (String × LogicalType)) :=
  match n, input with
  | 0, _ => none
  | n + 1, input => do (← lib.items? input).mapM (partOf? n nameKey)

/-- Reads a named type. -/
def partOf? (n : Nat) (nameKey : String) (input : lib.Input n) : Option (String × LogicalType) :=
  match n, input with
  | 0, _ => none
  | n + 1, input => do
    let [name, t] ← lib.record? [nameKey, "logical_type"] input | none
    return (← lib.text? name, ← ofInput? n t)

end

/-- The type that a text stands for. -/
def deserialize? (text : String) : Option LogicalType := do
  ofInput? lib lib.levels (← lib.open? text)

end LogicalType

end Columnar
