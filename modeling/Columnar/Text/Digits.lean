/-!
# Digits

Numbers and bytes as digits. `fixed` writes exactly as many decimal digits as it is asked for,
`padded` at least as many, and `Hex` writes two hexadecimal digits for every byte and reads them
back (`Hex.decode?_encode`).
-/

namespace Columnar.Text

namespace Digits

/-- The digit for `d` in bases up to sixteen, in lower case. -/
def digit (d : Nat) : Char := Nat.digitChar (d % 16)

/-- The last `width` decimal digits of `n`. -/
def fixed : Nat → Nat → List Char
  | 0, _ => []
  | width + 1, n => fixed width (n / 10) ++ [digit (n % 10)]

/-- The decimal digits of `n`, with zeros in front where it has fewer than `width`. -/
def padded (width n : Nat) : String :=
  if n < Nat.pow 10 width then String.ofList (fixed width n) else toString n

@[simp] theorem length_fixed (width n : Nat) : (fixed width n).length = width := by
  induction width generalizing n with
  | zero => rfl
  | succ width ih => simp [fixed, ih]

end Digits

namespace Hex

/-- The two lower-case digits of a byte, the high one first. -/
def byte (b : UInt8) : List Char := [Digits.digit (b.toNat / 16), Digits.digit (b.toNat % 16)]

/-- The digits of all bytes in order. -/
def encode (bytes : List UInt8) : List Char := bytes.flatMap byte

/-- The value of a digit of either case. -/
def value? (c : Char) : Option Nat :=
  if '0' ≤ c ∧ c ≤ '9' then some (c.toNat - '0'.toNat)
  else if 'a' ≤ c ∧ c ≤ 'f' then some (c.toNat - 'a'.toNat + 10)
  else if 'A' ≤ c ∧ c ≤ 'F' then some (c.toNat - 'A'.toNat + 10)
  else none

/-- The bytes that pairs of digits stand for; nothing if a digit is left over or is none. -/
def decode? : List Char → Option (List UInt8)
  | [] => some []
  | [_] => none
  | high :: low :: rest => do
    let h ← value? high
    let l ← value? low
    return UInt8.ofNat (16 * h + l) :: (← decode? rest)

/-- The number that digits of base sixteen spell. -/
def toNat? (digits : List Char) : Option Nat :=
  if digits.isEmpty then none
  else digits.foldlM (fun n c ↦ (value? c).map (16 * n + ·)) 0

theorem value?_digit : ∀ d < 16, value? (Digits.digit d) = some d := by decide

theorem decode?_encode (bytes : List UInt8) : decode? (encode bytes) = some bytes := by
  induction bytes with
  | nil => rfl
  | cons b rest ih =>
    have hlt := b.toNat_lt
    have hb : UInt8.ofNat (16 * (b.toNat / 16) + b.toNat % 16) = b := by
      rw [Nat.div_add_mod]; exact UInt8.ofNat_toNat
    have hhigh := value?_digit _ (show b.toNat / 16 < 16 by omega)
    have hlow := value?_digit _ (Nat.mod_lt b.toNat (by decide : 16 > 0))
    simp only [encode] at ih
    simp only [encode, List.flatMap_cons, byte, List.cons_append, List.nil_append, decode?, hhigh,
      hlow, ih, bind, Option.bind, pure, hb]

end Hex

end Columnar.Text
