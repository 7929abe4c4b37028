import Columnar.Text.Printable

/-!
# Quoted texts

Texts between double quotes and characters between single quotes, for messages: what would be
mistaken for a quote, a line break or nothing at all is escaped with a backslash, other characters
that are not printed by their number in braces.
-/

namespace Columnar.Text.Quoted

/-- A character between quotes of the kind `quote`. -/
def escape (quote : Char) (c : Char) : String :=
  if c = '\x00' then "\\0"
  else if c = '\t' then "\\t"
  else if c = '\r' then "\\r"
  else if c = '\n' then "\\n"
  else if c = '\\' || c = quote then "\\" ++ c.toString
  else if isPrintable c then c.toString
  else "\\u\x7b" ++ String.ofList (Nat.toDigits 16 c.toNat) ++ "\x7d"

/-- A text between double quotes. -/
def text (s : String) : String :=
  "\"" ++ s.foldl (fun acc c ↦ acc ++ escape '"' c) "" ++ "\""

/-- A character between single quotes. -/
def char (c : Char) : String := "'" ++ escape '\'' c ++ "'"

end Columnar.Text.Quoted
