import Columnar.LittleEndian

/-!
# UUIDs

A UUID is stored as a signed 128-bit integer: its natural value with the top bit flipped, so that
signed order is the order of the bytes.

The rest of a program has UUIDs from a library, as sixteen bytes. `Uuid.Library` is what such a
library is asked for; how it makes a number or a text of the bytes is left open.
-/

namespace Columnar

/-- A UUID as it is stored. -/
structure Uuid where
  raw : BitVec 128
  deriving DecidableEq, Repr

namespace Uuid

/-- The UUID with the given natural value. -/
def ofNatural (n : BitVec 128) : Uuid := ⟨n ^^^ BitVec.intMin 128⟩

/-- The natural value. -/
def natural (u : Uuid) : BitVec 128 := u.raw ^^^ BitVec.intMin 128

/-- The stored integer. -/
def toInt (u : Uuid) : Int := u.raw.toInt

/-- The sixteen bytes of the natural value, most significant first. -/
def bytes (u : Uuid) : List UInt8 := (LittleEndian.ofNat 16 u.natural.toNat).reverse

instance : Ord Uuid := ⟨fun a b ↦ compare a.toInt b.toInt⟩

@[simp] theorem natural_ofNatural (n : BitVec 128) : (ofNatural n).natural = n := by
  rw [ofNatural, natural, BitVec.xor_assoc, BitVec.xor_self, BitVec.xor_zero]

@[simp] theorem ofNatural_natural (u : Uuid) : ofNatural u.natural = u := by
  rw [ofNatural, natural, BitVec.xor_assoc, BitVec.xor_self, BitVec.xor_zero]

/-! ### The rest of a program -/

/-- A library of UUIDs. -/
class Library where
  /-- The number of sixteen bytes. -/
  toNumber : Vector UInt8 16 → BitVec 128
  /-- The sixteen bytes of a number. -/
  ofNumber : BitVec 128 → Vector UInt8 16
  /-- The text of sixteen bytes. -/
  hyphenated : Vector UInt8 16 → String

variable [Library]

/-- Puts a UUID into storage. -/
def ofBytes (bytes : Vector UInt8 16) : Uuid := ofNatural (Library.toNumber bytes)

/-- Takes a UUID out of storage. -/
def toBytes (u : Uuid) : Vector UInt8 16 := Library.ofNumber u.natural

/-- The text of a UUID. -/
def text (u : Uuid) : String := Library.hyphenated u.toBytes

end Uuid

end Columnar
