import Columnar.Json.Basic

/-!
# Libraries of JSON texts

Who stores a type as a text leaves it to a library to write the text and to read it. `Library` is
what such a library is asked for: it writes variants and records by their names, and it reads them
where it is told which names there are. How it does so is left open.

A value is read where it stands in a text, and what is inside an array or an object stands one level
further down. `Library.Input` counts the levels that are left, so nothing can be read out of more
arrays and objects than a library opens at once.
-/

namespace Columnar.Json

/-- What stands where a variant is read: its name and, if it has contents, where they are, which is
one level further down. -/
inductive Variant (Input : Nat → Type) : Nat → Type where
  | unit {levels : Nat} (name : String) : Variant Input levels
  | contents {levels : Nat} (name : String) (body : Input levels) : Variant Input (levels + 1)

/-- A library that writes values as JSON texts and reads them. -/
structure Library where
  /-- How a variant without contents is written. -/
  unit : String → Json
  /-- How a variant with contents is written. -/
  variant : String → Json → Json
  /-- How a record is written, from its fields in the order they are declared in. -/
  record : List (String × Json) → Json
  /-- The text of a value. -/
  print : Json → String
  /-- The number of arrays and objects that may be open at once while a text is read. -/
  levels : Nat
  /-- Places in a text that is being read, by the number of arrays and objects that may still be
  opened there. -/
  Input : Nat → Type
  /-- The place of the value that a text consists of. -/
  open? : String → Option (Input levels)
  /-- Reads a variant, where the names of variants without and with contents are given. -/
  variant? {n : Nat} (units contents : List String) : Input n → Option (Variant Input n)
  /-- Reads a record with fields of the given names, and gives the places of their values in the
  order of the names. -/
  record? {n : Nat} (names : List String) : Input (n + 1) → Option (List (Input n))
  /-- Reads an array, and gives the places of its items. -/
  items? {n : Nat} : Input (n + 1) → Option (List (Input n))
  /-- Reads a text. -/
  text? {n : Nat} : Input n → Option String
  /-- Reads a natural number below a bound. -/
  natural? {n : Nat} (bound : Nat) : Input n → Option Nat

end Columnar.Json
