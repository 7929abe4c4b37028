import Columnar.LogicalType.Basic

/-!
# SQL labels of types

The text of a type as SQL spells it: `INTEGER[]`, `STRUCT(a INTEGER, "b c" VARCHAR)`,
`ENUM('sad', 'it''s ok')`. Names that are not plain identifiers are quoted, and a quote inside a
quoted name or value is written twice.
-/

namespace Columnar.LogicalType

/-- Writes `s` between quotes, with every quote inside it doubled. -/
def quoted (q : Char) (s : String) : String :=
  String.ofList (q :: s.toList.flatMap (fun c ↦ if c = q then [q, q] else [c]) ++ [q])

/-- Whether a character may occur in an identifier that is not quoted. -/
def isWordChar (c : Char) : Bool := c.isAlphanum || c == '_'

/-- Whether a name needs no quotes: it starts with a letter or underscore and holds nothing but
letters, digits and underscores, all of ASCII. -/
def isPlain (name : String) : Bool :=
  match name.toList with
  | [] => false
  | c :: rest => (c.isAlpha || c == '_') && rest.all isWordChar

/-- A field name as SQL writes it. -/
def identifier (name : String) : String := if isPlain name then name else quoted '"' name

mutual

/-- The text of a type. -/
def label : LogicalType → String
  | .decimal t => s!"DECIMAL({t.width.toNat},{t.scale.toNat})"
  | .enumeration t => "ENUM(" ++ ", ".intercalate (t.values.toList.map (quoted '\'')) ++ ")"
  | .list element => element.label ++ "[]"
  | .array element length => element.label ++ s!"[{length.toNat}]"
  | .struct fields => "STRUCT(" ++ ", ".intercalate (fieldLabels fields) ++ ")"
  | .map key value => "MAP(" ++ key.label ++ ", " ++ value.label ++ ")"
  | .union alternatives => "UNION(" ++ ", ".intercalate (fieldLabels alternatives) ++ ")"
  | .fixed kind => kind.typeId.name
  | .string kind => kind.typeId.name
  | .other id => id.name

/-- The texts of named types: the name, a blank, the type. -/
def fieldLabels : List (String × LogicalType) → List String
  | [] => []
  | (name, t) :: rest => (identifier name ++ " " ++ t.label) :: fieldLabels rest

end

instance : ToString LogicalType := ⟨label⟩

end Columnar.LogicalType
