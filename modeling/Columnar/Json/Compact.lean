import Columnar.Json.Basic

/-!
# Compact JSON texts

Values as they are written where types are stored: without blanks, with the members of objects in
the order they are given in, and with an escape of one letter for the control characters that have
one.
-/

namespace Columnar.Json

/-- What stands behind the backslash for a character that has an escape of one letter. -/
def escapeLetter? (c : Char) : Option Char :=
  if c = '"' ∨ c = '\\' then some c
  else if c = '\x08' then some 'b'
  else if c = '\x0c' then some 'f'
  else if c = '\n' then some 'n'
  else if c = '\r' then some 'r'
  else if c = '\t' then some 't'
  else none

/-- A character inside a string. -/
def escapeChars (c : Char) : List Char :=
  match escapeLetter? c with
  | some letter => ['\\', letter]
  | none =>
    if c.toNat < 0x20 then
      ['\\', 'u', '0', '0', Nat.digitChar (c.toNat / 16), Nat.digitChar (c.toNat % 16)]
    else [c]

/-- The inside of a string with its closing quote. -/
def stringChars : List Char → List Char
  | [] => ['"']
  | c :: rest => escapeChars c ++ stringChars rest

mutual

/-- The characters of a value. -/
def chars : Json → List Char
  | .null => ['n', 'u', 'l', 'l']
  | .bool true => ['t', 'r', 'u', 'e']
  | .bool false => ['f', 'a', 'l', 's', 'e']
  | .int value => (toString value).toList
  | .double bits => (doubleText bits).toList
  | .text value => '"' :: stringChars value.toList
  | .array [] => ['[', ']']
  | .array (item :: rest) => '[' :: (item.chars ++ moreItems rest)
  | .object [] => ['\x7b', '\x7d']
  | .object ((name, value) :: rest) =>
    '\x7b' :: '"' :: (stringChars name.toList ++ ':' :: (value.chars ++ moreMembers rest))

/-- The items of an array behind the first one. -/
def moreItems : List Json → List Char
  | [] => [']']
  | item :: rest => ',' :: (item.chars ++ moreItems rest)

/-- The members of an object behind the first one. -/
def moreMembers : List (String × Json) → List Char
  | [] => ['\x7d']
  | (name, value) :: rest =>
    ',' :: '"' :: (stringChars name.toList ++ ':' :: (value.chars ++ moreMembers rest))

end

/-- The compact text of a value. -/
def compact (j : Json) : String := String.ofList j.chars

end Columnar.Json
