import Columnar.Column.Read

/-!
# Looking into columns

The text by which a column is shown to whoever looks for a fault in it: the rows of a column of
integers or truth values, and for strings, whose rows would be too long, the window and its
bitmap. Other columns have no such text.
-/

namespace Columnar.Column

/-- A row that may be null. -/
def optionText (row : Option String) : String :=
  match row with
  | none => "None"
  | some s => s!"Some({s})"

/-- The text of an integer or a truth value, and none for null. -/
def scalarText? : Value → Option String
  | .boolean b => some (toString b)
  | .integer _ n => some (toString n)
  | _ => none

/-- The rows of a column in brackets. -/
def rowTexts (c : Column) : Outcome String := do
  let rows ← (List.range c.len).mapM c.get
  return "[" ++ ", ".intercalate (rows.map (optionText ∘ scalarText?)) ++ "]"

/-- The text of a bitmap with the window through which it is read. -/
def validityText (v : Validity) : String :=
  let words := v.content.map fun words ↦
    "[" ++ ", ".intercalate (words.toList.map fun w ↦ toString w.toNat) ++ "]"
  "Validity \x7b words: " ++ optionText words ++ s!", offset: {v.start}, len: {v.len} \x7d"

/-- The name of a column of strings. -/
def stringsName : StringKind → String
  | .varchar => "VarCharVector"
  | .blob => "BlobVector"
  | .bit => "BitVector"

/-- The text of a column, if its type has one. -/
def inspect (c : Column) : Outcome (Option String) :=
  match c.content with
  | .fixed .boolean _ | .fixed (.integer _) _ => some <$> c.rowTexts
  | .string kind slots _ =>
    let validity : Validity := ⟨slots.words, c.start, c.len⟩
    .ok <| some <| stringsName kind ++ s!" \x7b slots: StringSlots \x7b len: {c.len}, validity: " ++
      validityText validity ++ ", .. \x7d \x7d"
  | _ => .ok none

end Columnar.Column
