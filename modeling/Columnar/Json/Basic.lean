import Columnar.Number.Shortest

/-!
# JSON values and their text

`Json` is what columns, rows and types are written as. Numbers are integers of any size or finite
doubles.

The members of an object are assumed to be a map by their names, which has each name once and
overwrites what was there under a name. Here they are kept in the order of their names, so two
objects that were filled in a different order with the same members are equal.

`render` is the compact text: no blanks outside strings. `nesting` is how deep a text of the value
nests, which is what readers of texts limit.
-/

namespace Columnar

/-- A JSON value. -/
inductive Json where
  | null
  | bool (value : Bool)
  | int (value : Int)
  | double (bits : UInt64)
  | text (value : String)
  | array (items : List Json)
  | object (members : List (String × Json))

namespace Json

instance : Inhabited Json := ⟨.null⟩

/-- Adds a member to the sorted members of an object, in place of one of the same name. -/
def insert (name : String) (value : Json) : List (String × Json) → List (String × Json)
  | [] => [(name, value)]
  | (other, old) :: rest =>
    if name < other then (name, value) :: (other, old) :: rest
    else if name = other then (name, value) :: rest
    else (other, old) :: insert name value rest

/-- The object with the given members, of which later ones replace earlier ones of the same name. -/
def ofMembers (members : List (String × Json)) : Json :=
  .object <| members.foldl (fun acc m ↦ insert m.1 m.2 acc) []

/-- The largest magnitude up to which every integer is a double. -/
def maxSafeInteger : Nat := 0x1fffffffffffff

/-- An integer as a number if any reader can hold it exactly, and as a text otherwise. -/
def ofInt (n : Int) : Json := if n.natAbs ≤ maxSafeInteger then .int n else .text (toString n)

/-- A double as a number if it is finite, and as a word otherwise. -/
def ofDouble (bits : UInt64) : Json :=
  match BinaryFormat.double.decode bits.toNat with
  | .nan => .text "NaN"
  | .infinite negative => .text (if negative then "-Infinity" else "Infinity")
  | .finite .. => .double bits

/-! ### Text -/

/-- Doubles are positional from `1e-5` to below `1e16`, a positive exponent has a plus sign, and the
even one of two nearest decimals is taken. -/
def floatStyle : FloatStyle := ⟨-5, 16, true, .even⟩

/-- The digits of a double; special values, which no `ofDouble` produces, are `null`. -/
def doubleText (bits : UInt64) : String :=
  match BinaryFormat.double.decode bits.toNat with
  | .finite negative significand exponent =>
    floatStyle.text .double negative significand exponent
  | _ => "null"

/-- A character inside a string: quotes, backslashes and control characters are escaped. -/
def escape (c : Char) : String :=
  if c = '"' then "\\\""
  else if c = '\\' then "\\\\"
  else if c.toNat < 0x20 then
    "\\u00" ++ String.ofList [Nat.digitChar (c.toNat / 16), Nat.digitChar (c.toNat % 16)]
  else c.toString

/-- A string with its quotes. -/
def quote (s : String) : String := "\"" ++ s.foldl (fun acc c ↦ acc ++ escape c) "" ++ "\""

mutual

/-- The compact text of a value. -/
def render : Json → String
  | .null => "null"
  | .bool value => if value then "true" else "false"
  | .int value => toString value
  | .double bits => doubleText bits
  | .text value => quote value
  | .array items => "[" ++ ",".intercalate (renderItems items) ++ "]"
  | .object members => "\x7b" ++ ",".intercalate (renderMembers members) ++ "\x7d"

/-- The texts of the items of an array. -/
def renderItems : List Json → List String
  | [] => []
  | item :: rest => item.render :: renderItems rest

/-- The texts of the members of an object. -/
def renderMembers : List (String × Json) → List String
  | [] => []
  | (name, value) :: rest => (quote name ++ ":" ++ value.render) :: renderMembers rest

end

/-! ### Shape -/

mutual

/-- The number of arrays and objects that are open at once in the text of a value. -/
def nesting : Json → Nat
  | .array items => 1 + itemsNesting items
  | .object members => 1 + membersNesting members
  | .null | .bool _ | .int _ | .double _ | .text _ => 0

/-- The same for the items of an array. -/
def itemsNesting : List Json → Nat
  | [] => 0
  | item :: rest => max item.nesting (itemsNesting rest)

/-- The same for the members of an object. -/
def membersNesting : List (String × Json) → Nat
  | [] => 0
  | (_, value) :: rest => max value.nesting (membersNesting rest)

end

mutual

/-- There is no double in the value. -/
def DoubleFree : Json → Prop
  | .double _ => False
  | .array items => ItemsDoubleFree items
  | .object members => MembersDoubleFree members
  | .null | .bool _ | .int _ | .text _ => True

/-- There is no double in the items of an array. -/
def ItemsDoubleFree : List Json → Prop
  | [] => True
  | item :: rest => item.DoubleFree ∧ ItemsDoubleFree rest

/-- There is no double in the members of an object. -/
def MembersDoubleFree : List (String × Json) → Prop
  | [] => True
  | (_, value) :: rest => value.DoubleFree ∧ MembersDoubleFree rest

end

mutual

/-- The value with the members of all objects in the order of their names. -/
def sorted : Json → Json
  | .array items => .array (sortedItems items)
  | .object members => ofMembers (sortedMembers members)
  | .null => .null
  | .bool value => .bool value
  | .int value => .int value
  | .double bits => .double bits
  | .text value => .text value

/-- The same for the items of an array. -/
def sortedItems : List Json → List Json
  | [] => []
  | item :: rest => item.sorted :: sortedItems rest

/-- The same for the values of the members of an object. -/
def sortedMembers : List (String × Json) → List (String × Json)
  | [] => []
  | (name, value) :: rest => (name, value.sorted) :: sortedMembers rest

end

end Json

end Columnar
