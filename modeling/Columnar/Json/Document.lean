import Columnar.Text.Digits

/-!
# JSON texts as they are written

`Document.parse?` reads a whole JSON text into its tree and decides nothing about its meaning:
members stay in their order and may repeat, a number is kept only if it is written as an integer,
and a string that spells no text because of an unpaired surrogate escape is still a string. What a
document means, and how deep it may nest, is for those who read a value out of it.

The grammar is the strict one: no leading zeros, no trailing commas, no control characters inside
strings, and nothing but blanks after the value.
-/

namespace Columnar.Json

/-- A parsed JSON text. -/
inductive Document where
  | null
  | bool (value : Bool)
  /-- A number without fraction and exponent, other than `-0`. -/
  | integer (value : Int)
  /-- Any other number. -/
  | real
  /-- A string, or `none` if its escapes spell no text. -/
  | text (value : Option String)
  | array (items : List Document)
  | object (members : List (Option String × Document))

namespace Document

instance : Inhabited Document := ⟨.null⟩

/-- The blanks of the grammar. -/
def isBlank (c : Char) : Bool := c = ' ' ∨ c = '\n' ∨ c = '\t' ∨ c = '\r'

/-- The text from the first character on that is no blank. -/
def skipBlanks (cs : List Char) : List Char := cs.dropWhile isBlank

/-! ### Strings -/

/-- A part of a string: a character, or a sixteen-bit unit that was written as `\uXXXX`. -/
inductive Piece where
  | char (c : Char)
  | unit (n : Nat)

/-- The character a one-letter escape stands for. -/
def escaped? (c : Char) : Option Char :=
  if c = '"' ∨ c = '\\' ∨ c = '/' then some c
  else if c = 'b' then some '\x08'
  else if c = 'f' then some '\x0c'
  else if c = 'n' then some '\n'
  else if c = 'r' then some '\r'
  else if c = 't' then some '\t'
  else none

/-- The parts of a string up to its closing quote, and the text after it. -/
def pieces? : List Char → Option (List Piece × List Char)
  | [] => none
  | '"' :: rest => some ([], rest)
  | '\\' :: 'u' :: a :: b :: c :: d :: rest => do
    let n ← Text.Hex.toNat? [a, b, c, d]
    let (more, rest) ← pieces? rest
    return (.unit n :: more, rest)
  | '\\' :: e :: rest => do
    let c ← escaped? e
    let (more, rest) ← pieces? rest
    return (.char c :: more, rest)
  | c :: rest => do
    if c.toNat < 0x20 then none
    let (more, rest) ← pieces? rest
    return (.char c :: more, rest)

/-- The text that parts spell: units outside the surrogate range stand for themselves, and a high
and a low surrogate in a row for one character. -/
def spell? : List Piece → Option (List Char)
  | [] => some []
  | .char c :: rest => (spell? rest).map (c :: ·)
  | .unit high :: .unit low :: rest =>
    if 0xd800 ≤ high ∧ high < 0xdc00 then
      if 0xdc00 ≤ low ∧ low < 0xe000 then
        (spell? rest).map (Char.ofNat (0x10000 + (high - 0xd800) * 0x400 + (low - 0xdc00)) :: ·)
      else none
    else if 0xdc00 ≤ high ∧ high < 0xe000 then none
    else (spell? (.unit low :: rest)).map (Char.ofNat high :: ·)
  | .unit n :: rest =>
    if 0xd800 ≤ n ∧ n < 0xe000 then none else (spell? rest).map (Char.ofNat n :: ·)

/-- A string, from behind its opening quote. -/
def string? (cs : List Char) : Option (Option String × List Char) := do
  let (parts, rest) ← pieces? cs
  return ((spell? parts).map String.ofList, rest)

/-! ### Numbers -/

/-- The fraction of a number, if there is one: whether there is, and the text after it. -/
def fraction? : List Char → Option (Bool × List Char)
  | '.' :: rest => if (rest.takeWhile Char.isDigit).isEmpty then none
    else some (true, rest.dropWhile Char.isDigit)
  | cs => some (false, cs)

/-- The exponent of a number, if there is one: whether there is, and the text after it. -/
def exponent? (cs : List Char) : Option (Bool × List Char) :=
  match cs with
  | c :: rest =>
    if c = 'e' ∨ c = 'E' then
      let rest := match rest with
        | sign :: more => if sign = '+' ∨ sign = '-' then more else rest
        | [] => []
      if (rest.takeWhile Char.isDigit).isEmpty then none
      else some (true, rest.dropWhile Char.isDigit)
    else some (false, cs)
  | [] => some (false, cs)

/-- The number that decimal digits spell. -/
def ofDigits (digits : List Char) : Nat :=
  digits.foldl (fun n c ↦ 10 * n + (c.toNat - '0'.toNat)) 0

/-- A number from its first digit on. -/
def number? (negative : Bool) (cs : List Char) : Option (Document × List Char) := do
  let digits := cs.takeWhile Char.isDigit
  if digits.isEmpty || (digits.head? == some '0' && digits.length != 1) then none
  let (hasFraction, rest) ← fraction? (cs.dropWhile Char.isDigit)
  let (hasExponent, rest) ← exponent? rest
  let n := ofDigits digits
  if hasFraction || hasExponent || (negative && n == 0) then return (.real, rest)
  return (.integer (if negative then -(n : Int) else n), rest)

/-! ### Values -/

/-- The text after `word`, if the text starts with it. -/
def after? : List Char → List Char → Option (List Char)
  | [], cs => some cs
  | w :: word, c :: cs => if w = c then after? word cs else none
  | _ :: _, [] => none

mutual

/-- A value and the text after it. Every call uses up fuel; two units for each character are
enough. -/
def value? (fuel : Nat) (cs : List Char) : Option (Document × List Char) :=
  match fuel with
  | 0 => none
  | fuel + 1 =>
    match skipBlanks cs with
    | [] => none
    | c :: rest =>
      if c = '"' then (string? rest).map fun (s, rest) ↦ (.text s, rest)
      else if c = '[' then
        match skipBlanks rest with
        | ']' :: rest => some (.array [], rest)
        | rest => (items? fuel rest).map fun (items, rest) ↦ (.array items, rest)
      else if c = '\x7b' then
        match skipBlanks rest with
        | '\x7d' :: rest => some (.object [], rest)
        | rest => (members? fuel rest).map fun (members, rest) ↦ (.object members, rest)
      else if c = 't' then (after? ['r', 'u', 'e'] rest).map ((.bool true, ·))
      else if c = 'f' then (after? ['a', 'l', 's', 'e'] rest).map ((.bool false, ·))
      else if c = 'n' then (after? ['u', 'l', 'l'] rest).map ((.null, ·))
      else if c = '-' then number? true rest
      else number? false (c :: rest)

/-- The items of an array up to its closing bracket, of which there is one at least. -/
def items? (fuel : Nat) (cs : List Char) : Option (List Document × List Char) :=
  match fuel with
  | 0 => none
  | fuel + 1 => do
    let (item, rest) ← value? fuel cs
    match skipBlanks rest with
    | ',' :: rest => (items? fuel rest).map fun (more, rest) ↦ (item :: more, rest)
    | ']' :: rest => some ([item], rest)
    | _ => none

/-- The members of an object up to its closing brace, of which there is one at least. -/
def members? (fuel : Nat) (cs : List Char) :
    Option (List (Option String × Document) × List Char) :=
  match fuel with
  | 0 => none
  | fuel + 1 =>
    match skipBlanks cs with
    | '"' :: rest => do
      let (name, rest) ← string? rest
      match skipBlanks rest with
      | ':' :: rest => do
        let (value, rest) ← value? fuel rest
        match skipBlanks rest with
        | ',' :: rest => (members? fuel rest).map fun (more, rest) ↦ ((name, value) :: more, rest)
        | '\x7d' :: rest => some ([(name, value)], rest)
        | _ => none
      | _ => none
    | _ => none

end

/-- The document that is written as `cs`. -/
def ofChars? (cs : List Char) : Option Document := do
  let (doc, rest) ← value? (2 * cs.length + 2) cs
  if (skipBlanks rest).isEmpty then some doc else none

/-- The document that is written as `text`. -/
def parse? (text : String) : Option Document := ofChars? text.toList

/-! ### Records -/

/-- The value of the member `name`, which has to be there at most once: `none` if it is repeated,
`some none` if it is missing. -/
def member? (name : String) (members : List (Option String × Document)) :
    Option (Option Document) :=
  match members.filter (·.1 == some name) with
  | [] => some none
  | [(_, value)] => some (some value)
  | _ => none

/-- The values of a record with the given fields, in their order, where `none` is a field without a
value. A record is written as an object, in which other members are ignored, or as the array of its
first values. -/
def record? (fields : List String) : Document → Option (List (Option Document))
  | .array items =>
    if items.length ≤ fields.length then
      some (items.map some ++ List.replicate (fields.length - items.length) none)
    else none
  | .object members =>
    if members.all (·.1.isSome) then fields.mapM (member? · members) else none
  | _ => none

/-- The natural number below `bound` that is written as an integer. -/
def natural? (bound : Nat) : Document → Option Nat
  | .integer n => if 0 ≤ n ∧ n < bound then some n.toNat else none
  | _ => none

end Document

end Columnar.Json
