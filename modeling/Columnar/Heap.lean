import Columnar.LittleEndian

/-!
# String slots and their heap

A byte string takes a slot of sixteen bytes that starts with its length. Up to twelve bytes follow
in the slot itself; longer ones lie in a payload of the heap, and the last eight bytes of the slot
are their address. A heap is searched in order, and a payload answers only if it has the whole
range (`Heap.read?_eq_some_iff`).
-/

namespace Columnar

/-- Bytes that lie at an address. -/
structure Payload where
  address : Nat
  bytes : Array UInt8
  deriving DecidableEq

/-- The payloads of a chunk, in the order in which they are searched. -/
abbrev Heap := Array Payload

/-- Whether the payload has all of the `length` bytes from `pointer` on. -/
def Payload.Covers (p : Payload) (pointer length : Nat) : Prop :=
  p.address ≤ pointer ∧ pointer + length ≤ p.address + p.bytes.size

instance (p : Payload) (pointer length : Nat) : Decidable (p.Covers pointer length) :=
  inferInstanceAs (Decidable (_ ∧ _))

/-- The `length` bytes from `pointer` on, if the payload has all of them. -/
def Payload.read? (p : Payload) (pointer length : Nat) : Option (List UInt8) :=
  if p.Covers pointer length then
    some (p.bytes.extract (pointer - p.address) (pointer - p.address + length)).toList
  else none

namespace Heap

/-- The `length` bytes from `pointer` on, from the first payload that has all of them. -/
def read? (heap : Heap) (pointer length : Nat) : Option (List UInt8) :=
  heap.findSome? (·.read? pointer length)

theorem read?_eq_some_iff {heap : Heap} {pointer length : Nat} {bytes : List UInt8} :
    heap.read? pointer length = some bytes ↔
      ∃ before p after, heap.toList = before ++ p :: after ∧ p.read? pointer length = some bytes ∧
        ∀ q ∈ before, ¬ q.Covers pointer length := by
  simp only [read?, ← Array.findSome?_toList, List.findSome?_eq_some_iff]
  refine ⟨fun ⟨b, p, a, h, hp, hb⟩ ↦ ⟨b, p, a, h, hp, fun q hq hc ↦ ?_⟩,
    fun ⟨b, p, a, h, hp, hb⟩ ↦ ⟨b, p, a, h, hp, fun q hq ↦ ?_⟩⟩
  · simpa [Payload.read?, hc] using hb q hq
  · simp [Payload.read?, hb q hq]

theorem read?_eq_none_iff {heap : Heap} {pointer length : Nat} :
    heap.read? pointer length = none ↔ ∀ p ∈ heap, ¬ p.Covers pointer length := by
  simp [read?, Payload.read?]

end Heap

/-! ### Slots -/

namespace StringSlot

/-- The number of bytes of a slot. -/
def width : Nat := 16

/-- The number of bytes up to which a string lies in its slot. -/
def inlineLength : Nat := 12

/-- The length a slot records. -/
def length (slot : List UInt8) : Nat := LittleEndian.toNat (slot.take 4)

/-- Whether the string lies in its slot. -/
def isInline (slot : List UInt8) : Bool := length slot ≤ inlineLength

/-- The address a slot records. -/
def pointer (slot : List UInt8) : Nat := LittleEndian.toNat ((slot.drop 8).take 8)

/-- The bytes of the string, unless they lie where the heap has none. -/
def payload? (heap : Heap) (slot : List UInt8) : Option (List UInt8) :=
  if isInline slot then some ((slot.drop 4).take (length slot))
  else heap.read? (pointer slot) (length slot)

/-- A slot that holds a short string. -/
def ofInline (bytes : List UInt8) : List UInt8 :=
  LittleEndian.ofNat 4 bytes.length ++ bytes ++ List.replicate (inlineLength - bytes.length) 0

/-- A slot for a string at an address; it repeats the first four bytes of the string. -/
def ofPointer (bytes : List UInt8) (address : Nat) : List UInt8 :=
  LittleEndian.ofNat 4 bytes.length ++ bytes.take 4 ++ LittleEndian.ofNat 8 address

/-- A slot that records a length but points to no payload. -/
def dangling (length : Nat) : List UInt8 := LittleEndian.ofNat 4 length ++ List.replicate 12 0

end StringSlot

end Columnar
