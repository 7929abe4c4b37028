import Columnar.Failure

/-!
# Bit strings

A bit string is stored as a byte that counts the padding bits, followed by the bits, most
significant first, with the padding at the front of the first data byte. The type holds the
well-formed payloads; `ofBytes` refuses all others. `encode` is the payload for given bits, with
its padding set to one.
-/

namespace Columnar

/-- The eight bits of a byte, most significant first. -/
def byteBits (b : UInt8) : List Bool :=
  [7, 6, 5, 4, 3, 2, 1, 0].map fun i ↦ b.toNat.testBit i

/-- The byte with the given bits, most significant first. -/
def ofByteBits (bits : List Bool) : UInt8 :=
  UInt8.ofNat (bits.foldl (fun n b ↦ 2 * n + b.toNat) 0)

/-- The payload of a bit string. -/
structure BitString where
  padding : UInt8
  data : List UInt8
  padding_lt : padding.toNat < 8
  padding_le : padding.toNat ≤ data.length * 8
  deriving DecidableEq

namespace BitString

/-- Takes a payload apart. It has to have its padding byte, which has to be less than eight and no
more than there are bits. -/
def ofBytes : List UInt8 → Outcome BitString
  | [] => Outcome.refuse (.data .bitStringPresent)
  | padding :: data =>
    if hlt : padding.toNat < 8 then
      if hle : padding.toNat ≤ data.length * 8 then .ok ⟨padding, data, hlt, hle⟩
      else Outcome.refuse (.data .bitStringRoom)
    else Outcome.refuse (.data .bitStringPadding)

/-- The payload. -/
def bytes (b : BitString) : List UInt8 := b.padding :: b.data

/-- The bits, without the padding. -/
def bits (b : BitString) : List Bool := (b.data.flatMap byteBits).drop b.padding.toNat

/-- The number of bits. -/
def length (b : BitString) : Nat := b.data.length * 8 - b.padding.toNat

/-- Bit `i` from the left; there has to be one. -/
def get (b : BitString) (i : Nat) : Outcome Bool :=
  match b.bits[i]? with
  | some bit => .ok bit
  | none => Outcome.broken

/-- Bits as the digits `0` and `1`. -/
def digits (bits : List Bool) : String := String.ofList (bits.map fun b ↦ if b then '1' else '0')

/-- The text of a bit string. -/
def text (b : BitString) : String := digits b.bits

/-- Bits in groups of eight, each as a byte; bits that fill no byte are dropped. -/
def pack : List Bool → List UInt8
  | b₇ :: b₆ :: b₅ :: b₄ :: b₃ :: b₂ :: b₁ :: b₀ :: rest =>
    ofByteBits [b₇, b₆, b₅, b₄, b₃, b₂, b₁, b₀] :: pack rest
  | _ => []

/-- The number of bits that are missing to fill the last byte. -/
def paddingFor (count : Nat) : Nat := (8 - count % 8) % 8

/-- The payload for given bits. -/
def encode (bits : List Bool) : List UInt8 :=
  let padding := paddingFor bits.length
  UInt8.ofNat padding :: pack (List.replicate padding true ++ bits)

theorem ofBytes_bytes (b : BitString) : ofBytes b.bytes = .ok b := by
  simp [ofBytes, bytes, b.padding_lt, b.padding_le]

theorem bytes_of_ofBytes {p : List UInt8} {b : BitString} (h : ofBytes p = .ok b) :
    b.bytes = p := by
  cases p with
  | nil => simp [ofBytes, Outcome.refuse] at h
  | cons padding data =>
    simp only [ofBytes] at h
    split at h
    · split at h
      · injection h with h; rw [← h]; rfl
      · simp [Outcome.refuse] at h
    · simp [Outcome.refuse] at h

theorem length_bits (b : BitString) : b.bits.length = b.length := by
  have : (b.data.flatMap byteBits).length = b.data.length * 8 := by
    simp [List.length_flatMap, byteBits, List.map_const']
  simp [bits, length, this]

/-- The byte that has a bit is there. -/
theorem place_lt {b : BitString} {i : Nat} (h : i < b.length) :
    1 + (i + b.padding.toNat) / 8 < b.bytes.length := by
  rw [length] at h
  rw [bytes, List.length_cons]
  omega

end BitString

end Columnar
