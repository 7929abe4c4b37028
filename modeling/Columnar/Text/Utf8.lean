import Columnar.Failure

/-!
# UTF-8

Texts as byte strings. `encode` and `decode?` are inverse to each other on texts (`decode?_encode`);
where bytes are no text, `refusal?` says how far they are one and how long the bad sequence is.
-/

namespace Columnar.Text.Utf8

/-- The bytes of a text. -/
def encode (s : String) : List UInt8 := s.toUTF8.data.toList

/-- The text with the given bytes. -/
def decode? (bytes : List UInt8) : Option String := String.fromUTF8? ⟨bytes.toArray⟩

@[simp] theorem decode?_encode (s : String) : decode? (encode s) = some s := by
  have : (⟨s.toUTF8.data.toList.toArray⟩ : ByteArray) = s.toUTF8 := by simp
  rw [decode?, encode, this]
  exact dif_pos s.isValidUTF8

/-- The ranges of the bytes that have to follow a first byte, which rule out overlong forms,
surrogates and numbers above `10FFFF`; `none` if it is no first byte. -/
def followers? (b : UInt8) : Option (List (UInt8 × UInt8)) :=
  if b < 0x80 then some []
  else if b < 0xc2 then none
  else if b < 0xe0 then some [(0x80, 0xbf)]
  else if b = 0xe0 then some [(0xa0, 0xbf), (0x80, 0xbf)]
  else if b = 0xed then some [(0x80, 0x9f), (0x80, 0xbf)]
  else if b < 0xf0 then some [(0x80, 0xbf), (0x80, 0xbf)]
  else if b = 0xf0 then some [(0x90, 0xbf), (0x80, 0xbf), (0x80, 0xbf)]
  else if b < 0xf4 then some [(0x80, 0xbf), (0x80, 0xbf), (0x80, 0xbf)]
  else if b = 0xf4 then some [(0x80, 0x8f), (0x80, 0xbf), (0x80, 0xbf)]
  else none

/-- The first place at which bytes are no text. `start` is where the current character begins,
`seen` the number of its bytes that are read, and `pending` the ranges of those that are missing.
-/
def refusalFrom (start seen : Nat) (pending : List (UInt8 × UInt8)) :
    List UInt8 → Option Utf8Refusal
  | [] => if pending.isEmpty then none else some ⟨start, none⟩
  | b :: rest =>
    match pending with
    | [] =>
      match followers? b with
      | none => some ⟨start, some 1⟩
      | some [] => refusalFrom (start + 1) 0 [] rest
      | some ranges => refusalFrom start 1 ranges rest
    | (low, high) :: more =>
      if low ≤ b ∧ b ≤ high then
        if more.isEmpty then refusalFrom (start + seen + 1) 0 [] rest
        else refusalFrom start (seen + 1) more rest
      else some ⟨start, some seen⟩

/-- The first place at which bytes are no text, if there is one. -/
def refusal? (bytes : List UInt8) : Option Utf8Refusal := refusalFrom 0 0 [] bytes

/-- The text in row `row`. -/
def decode (row : Nat) (bytes : List UInt8) : Outcome String :=
  match decode? bytes with
  | some s => .ok s
  | none => Outcome.refuse (.invalidUtf8 row ((refusal? bytes).getD ⟨0, none⟩))

theorem decode_encode (row : Nat) (s : String) : decode row (encode s) = .ok s := by
  simp [decode]

end Columnar.Text.Utf8
