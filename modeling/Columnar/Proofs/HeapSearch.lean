import Mathlib.Data.List.Basic
import Columnar.Heap
import Columnar.LittleEndian.Lemmas

/-!
# The search for a payload

A slot points to its string with a word, and whoever looks for the bytes has words to do it with:
the offset into a payload is a difference that may be negative, and the end of the range a sum that
may wrap around. `Heap.search?` is the search in words. It gives up a payload, and not the search,
where a word cannot hold the number (`Word.sub?`, `Word.add?`), and so it finds what the search in
numbers finds (`Heap.search?_eq_read?`), as long as addresses and sizes are words.

What is found is said without either search: the bytes at the addresses from the pointer on, as the
first payload has them that covers them all (`Heap.Answers`). Payloads may overlap. If no two of
them have a byte at the same address, then at most one covers a range that is not empty
(`Heap.Apart.eq_of_covers`).
-/

namespace Columnar

/-! ### Words that may overflow -/

namespace Word

variable {a b c : UInt64}

/-- The difference of two words, unless it is negative. -/
def sub? (a b : UInt64) : Option UInt64 := if b ≤ a then some (a - b) else none

/-- The sum of two words, unless it wraps around, which makes it less than either. -/
def add? (a b : UInt64) : Option UInt64 := if a ≤ a + b then some (a + b) else none

theorem sub?_eq_some_iff : sub? a b = some c ↔ b.toNat ≤ a.toNat ∧ c.toNat = a.toNat - b.toNat := by
  rw [sub?]
  split
  next h =>
    have hsub : (a - b).toNat = a.toNat - b.toNat := UInt64.toNat_sub_of_le a b h
    simp [UInt64.le_iff_toNat_le.1 h, ← hsub, UInt64.toNat_inj, eq_comm]
  next h => simp [mt UInt64.le_iff_toNat_le.2 h]

theorem add?_eq_some_iff : add? a b = some c ↔ c.toNat = a.toNat + b.toNat := by
  have hadd := UInt64.toNat_add a b
  have ha := a.toNat_lt
  have hb := b.toNat_lt
  have hc := c.toNat_lt
  rw [add?]
  split
  next h =>
    rw [UInt64.le_iff_toNat_le] at h
    rw [Option.some.injEq, ← UInt64.toNat_inj]
    omega
  next h =>
    rw [UInt64.le_iff_toNat_le] at h
    simp only [reduceCtorEq, false_iff]
    omega

end Word

/-! ### The search in words -/

/-- The bytes from position `start` up to `stop`, if the payload has as many. -/
def Payload.range? (p : Payload) (start stop : UInt64) : Option (List UInt8) :=
  if start ≤ stop ∧ stop.toNat ≤ p.bytes.size then
    some (p.bytes.extract start.toNat stop.toNat).toList
  else none

/-- The `length` bytes from `pointer` on, if the payload has all of them. -/
def Payload.search? (p : Payload) (pointer length : UInt64) : Option (List UInt8) := do
  let offset ← Word.sub? pointer (UInt64.ofNat p.address)
  p.range? offset (← Word.add? offset length)

/-- The address and the number of bytes of the payload are words. -/
structure Payload.InWords (p : Payload) : Prop where
  address_lt : p.address < UInt64.size
  size_lt : p.bytes.size < UInt64.size

namespace Payload

variable {p : Payload}

theorem read?_eq_some_iff {pointer length : Nat} {bytes : List UInt8} :
    p.read? pointer length = some bytes ↔ p.Covers pointer length ∧
      (p.bytes.extract (pointer - p.address) (pointer - p.address + length)).toList = bytes := by
  rw [read?]
  split <;> simp_all

theorem search?_eq_some_iff {pointer length : UInt64} {bytes : List UInt8} :
    p.search? pointer length = some bytes ↔
      ∃ offset stop, Word.sub? pointer (UInt64.ofNat p.address) = some offset ∧
        Word.add? offset length = some stop ∧ p.range? offset stop = some bytes := by
  simp only [search?, Option.bind_eq_bind, Option.bind_eq_some_iff, exists_and_left]

/-- If the range lies in the payload, then its offset and its end are no larger than the payload,
and so they are words. If they are words, then they are what they are among the numbers. -/
theorem search?_eq_read? (hp : p.InWords) (pointer length : UInt64) :
    p.search? pointer length = p.read? pointer.toNat length.toNat := by
  have haddress : (UInt64.ofNat p.address).toNat = p.address :=
    UInt64.toNat_ofNat_of_lt' hp.address_lt
  have hsize := hp.size_lt
  refine Option.ext fun bytes ↦ search?_eq_some_iff.trans (Iff.trans ?_ read?_eq_some_iff.symm)
  constructor
  · rintro ⟨offset, stop, hoffset, hstop, hrange⟩
    obtain ⟨hle, hoffset⟩ := Word.sub?_eq_some_iff.1 hoffset
    have hstop := Word.add?_eq_some_iff.1 hstop
    rw [haddress] at hle hoffset
    rw [range?, hstop, hoffset] at hrange
    split at hrange
    next h => exact ⟨⟨hle, by omega⟩, Option.some.inj hrange⟩
    next => cases hrange
  · rintro ⟨⟨hle, hend⟩, rfl⟩
    have hoffset : (UInt64.ofNat (pointer.toNat - p.address)).toNat = pointer.toNat - p.address :=
      UInt64.toNat_ofNat_of_lt' (by omega)
    have hstop : (UInt64.ofNat (pointer.toNat - p.address + length.toNat)).toNat =
        pointer.toNat - p.address + length.toNat := UInt64.toNat_ofNat_of_lt' (by omega)
    refine ⟨_, _, Word.sub?_eq_some_iff.2 ⟨by rwa [haddress], by rw [hoffset, haddress]⟩,
      Word.add?_eq_some_iff.2 (by rw [hstop, hoffset]), ?_⟩
    rw [range?, hoffset, hstop, if_pos]
    rw [UInt64.le_iff_toNat_le, hoffset, hstop]
    omega

end Payload

/-! ### What is found -/

namespace Payload

variable {p q : Payload} {pointer length : Nat}

/-- The byte of the payload at an address, if it has one there. -/
def byteAt? (p : Payload) (address : Nat) : Option UInt8 :=
  if p.address ≤ address then p.bytes[address - p.address]? else none

/-- No address has a byte of both payloads. -/
def Apart (p q : Payload) : Prop := ∀ address, p.byteAt? address = none ∨ q.byteAt? address = none

theorem Apart.symm (h : p.Apart q) : q.Apart p := fun address ↦ (h address).symm

theorem byteAt?_eq_none_iff {address : Nat} : p.byteAt? address = none ↔
    address < p.address ∨ p.address + p.bytes.size ≤ address := by
  rw [byteAt?]
  split
  next h => rw [Array.getElem?_eq_none_iff]; omega
  next h => simpa using .inl (Nat.lt_of_not_le h)

/-- What is read of a payload are the bytes at the addresses of the range. -/
theorem read?_of_covers (h : p.Covers pointer length) {bytes : List UInt8} :
    p.read? pointer length = some bytes ↔
      bytes.length = length ∧ ∀ k < length, bytes[k]? = p.byteAt? (pointer + k) := by
  obtain ⟨hle, hend⟩ := h
  have hlen : (p.bytes.extract (pointer - p.address) (pointer - p.address + length)).toList.length =
      length := by
    rw [Array.length_toList, Array.size_extract]
    omega
  have hget : ∀ k < length,
      (p.bytes.extract (pointer - p.address) (pointer - p.address + length)).toList[k]? =
        p.byteAt? (pointer + k) := by
    intro k hk
    rw [byteAt?, if_pos (Nat.le_add_right_of_le hle), Array.getElem?_toList,
      Array.getElem?_extract_of_lt (by omega), Nat.sub_add_comm hle,
      Array.getElem?_eq_getElem (by omega)]
  rw [read?_eq_some_iff, and_iff_right ⟨hle, hend⟩]
  constructor
  · rintro rfl
    exact ⟨hlen, hget⟩
  · rintro ⟨hlength, hbytes⟩
    refine List.ext_getElem? fun k ↦ ?_
    rcases Nat.lt_or_ge k length with hk | hk
    · rw [hget k hk, hbytes k hk]
    · rw [List.getElem?_eq_none (Nat.le_trans (Nat.le_of_eq hlen) hk),
        List.getElem?_eq_none (Nat.le_trans (Nat.le_of_eq hlength) hk)]

/-- A payload that covers a range has the byte it starts with, unless the range is empty. -/
theorem byteAt?_ne_none_of_covers (h : p.Covers pointer length) (hpos : 0 < length) :
    p.byteAt? pointer ≠ none := by
  obtain ⟨hle, hend⟩ := h
  rw [Ne, byteAt?_eq_none_iff]
  omega

end Payload

namespace Heap

variable {heap : Heap}

/-- The `length` bytes from `pointer` on, from the first payload that has all of them. -/
def search? (heap : Heap) (pointer length : UInt64) : Option (List UInt8) :=
  heap.findSome? (·.search? pointer length)

theorem search?_eq_read? (h : ∀ p ∈ heap, p.InWords) (pointer length : UInt64) :
    heap.search? pointer length = heap.read? pointer.toNat length.toNat := by
  have hlist : ∀ payloads : List Payload, (∀ p ∈ payloads, p.InWords) →
      payloads.findSome? (·.search? pointer length) =
        payloads.findSome? (·.read? pointer.toNat length.toNat) := by
    intro payloads h
    induction payloads with
    | nil => rfl
    | cons p rest ih =>
      rw [List.forall_mem_cons] at h
      rw [List.findSome?_cons, List.findSome?_cons, Payload.search?_eq_read? h.1, ih h.2]
  rw [search?, read?, ← Array.findSome?_toList, ← Array.findSome?_toList]
  exact hlist _ fun p hp ↦ h p (Array.mem_def.2 hp)

/-- The bytes at the addresses from `pointer` on, as the first payload has them that covers them
all. -/
def Answers (heap : Heap) (pointer length : Nat) (bytes : List UInt8) : Prop :=
  ∃ before p after, heap.toList = before ++ p :: after ∧
    (∀ q ∈ before, ¬ q.Covers pointer length) ∧ p.Covers pointer length ∧
    bytes.length = length ∧ ∀ k < length, bytes[k]? = p.byteAt? (pointer + k)

/-- No address has bytes of two payloads. -/
def Apart (heap : Heap) : Prop := heap.toList.Pairwise Payload.Apart

theorem read?_eq_some_iff_answers {pointer length : Nat} {bytes : List UInt8} :
    heap.read? pointer length = some bytes ↔ heap.Answers pointer length bytes := by
  rw [read?_eq_some_iff]
  refine exists_congr fun before ↦ exists_congr fun p ↦ exists_congr fun after ↦
    and_congr_right fun _ ↦ ?_
  constructor
  · rintro ⟨hread, hbefore⟩
    have hcovers := (Payload.read?_eq_some_iff.1 hread).1
    exact ⟨hbefore, hcovers, (Payload.read?_of_covers hcovers).1 hread⟩
  · rintro ⟨hbefore, hcovers, hbytes⟩
    exact ⟨(Payload.read?_of_covers hcovers).2 hbytes, hbefore⟩

/-- Of payloads that are apart, one at most covers a range that is not empty: the others do not have
the byte that it starts with. -/
theorem Apart.eq_of_covers (h : heap.Apart) {pointer length i j : Nat} {p q : Payload}
    (hpos : 0 < length) (hi : heap[i]? = some p) (hj : heap[j]? = some q)
    (hp : p.Covers pointer length) (hq : q.Covers pointer length) : i = j := by
  obtain ⟨hilt, rfl⟩ := Array.getElem?_eq_some_iff.1 hi
  obtain ⟨hjlt, rfl⟩ := Array.getElem?_eq_some_iff.1 hj
  have hnone : ¬ heap[i].Apart heap[j] := fun hapart ↦
    (hapart pointer).elim (Payload.byteAt?_ne_none_of_covers hp hpos)
      (Payload.byteAt?_ne_none_of_covers hq hpos)
  have hapart := List.pairwise_iff_getElem.1 h
  rcases Nat.lt_trichotomy i j with hlt | heq | hlt
  · exact absurd (hapart i j hilt hjlt hlt) hnone
  · exact heq
  · exact absurd (hapart j i hjlt hilt hlt).symm hnone

/-- A payload that does not cover the range might as well not be there. -/
theorem read?_of_not_covers {before after : List Payload} {q : Payload} {pointer length : Nat}
    (hsplit : heap.toList = before ++ q :: after) (hq : ¬ q.Covers pointer length) :
    heap.read? pointer length = Heap.read? (before ++ after).toArray pointer length := by
  have hnone : q.read? pointer length = none := if_neg hq
  rw [read?, read?, ← Array.findSome?_toList, hsplit, List.findSome?_toArray, List.findSome?_append,
    List.findSome?_append, List.findSome?_cons, hnone]

/-- For every pointer and every length that are words, the search in words reads what the search in
numbers reads: the bytes of the first payload that covers the range, and nothing only if there is no
such payload. A payload that does not cover the range hides none of the others. If no two payloads
have a byte at the same address, then at most one of them covers the range, unless it is empty. -/
theorem search?_answers (h : ∀ p ∈ heap, p.InWords) (pointer length : UInt64) :
    heap.search? pointer length = heap.read? pointer.toNat length.toNat ∧
      (∀ bytes, heap.read? pointer.toNat length.toNat = some bytes ↔
        heap.Answers pointer.toNat length.toNat bytes) ∧
      (heap.read? pointer.toNat length.toNat = none ↔
        ∀ p ∈ heap, ¬ p.Covers pointer.toNat length.toNat) ∧
      (∀ before q after, heap.toList = before ++ q :: after →
        ¬ q.Covers pointer.toNat length.toNat → heap.read? pointer.toNat length.toNat =
          Heap.read? (before ++ after).toArray pointer.toNat length.toNat) ∧
      (heap.Apart → 0 < length → ∀ (i j : Nat) (p q : Payload), heap[i]? = some p →
        heap[j]? = some q → p.Covers pointer.toNat length.toNat →
          q.Covers pointer.toNat length.toNat → i = j) :=
  ⟨search?_eq_read? h pointer length, fun _ ↦ read?_eq_some_iff_answers, read?_eq_none_iff,
    fun _ _ _ hsplit hq ↦ read?_of_not_covers hsplit hq,
    fun hapart hpos _ _ _ _ ↦ hapart.eq_of_covers (UInt64.lt_iff_toNat_lt.1 hpos)⟩

/-- Eight bytes at the lowest addresses, and two at the highest. -/
def lowAndHigh : Heap := #[⟨0, Array.replicate 8 7⟩, ⟨0xfffffffffffffffe, #[1, 2]⟩]

/-- The range that is asked for ends where no word can say it, so the sum wraps around in the
payload that is searched first. The bytes are those of the other one. -/
theorem lowAndHigh_answers :
    (∀ p ∈ lowAndHigh, p.InWords) ∧ Word.add? 0xfffffffffffffffe 2 = none ∧
      lowAndHigh.search? 0xfffffffffffffffe 2 = some [1, 2] ∧
      lowAndHigh.Answers 0xfffffffffffffffe 2 [1, 2] ∧ lowAndHigh.Apart ∧
      ∀ (j : Nat) (q : Payload), lowAndHigh[j]? = some q → q.Covers 0xfffffffffffffffe 2 →
        j = 1 := by
  have hwords : ∀ p ∈ lowAndHigh, p.InWords := by
    simp only [lowAndHigh, List.mem_toArray, List.forall_mem_cons]
    exact ⟨⟨by decide, by decide⟩, ⟨by decide, by decide⟩, by simp⟩
  have hapart : lowAndHigh.Apart := by
    refine List.pairwise_pair.2 fun address ↦ ?_
    rw [Payload.byteAt?_eq_none_iff, Payload.byteAt?_eq_none_iff]
    simp only [Array.size_replicate]
    omega
  have hpointer : (0xfffffffffffffffe : UInt64).toNat = 0xfffffffffffffffe := rfl
  have hlength : (2 : UInt64).toNat = 2 := rfl
  obtain ⟨hsearch, hanswers, -, -, hone⟩ := search?_answers hwords 0xfffffffffffffffe 2
  rw [hpointer, hlength] at hsearch hanswers hone
  have hread : lowAndHigh.search? 0xfffffffffffffffe 2 = some [1, 2] := by decide
  exact ⟨hwords, by decide, hread, (hanswers _).1 (hsearch.symm.trans hread), hapart,
    fun j q hj hq ↦ hone hapart (by decide) j 1 q _ hj rfl hq (by decide)⟩

end Heap

/-! ### Strings -/

/-- The bytes of a long string are searched for with the words that its slot records. -/
theorem StringSlot.payload?_eq_search? {heap : Heap} (h : ∀ p ∈ heap, p.InWords)
    {slot : List UInt8} (hlong : isInline slot = false) :
    payload? heap slot =
      heap.search? (UInt64.ofNat (pointer slot)) (UInt64.ofNat (length slot)) := by
  have hpointer : pointer slot < UInt64.size :=
    Nat.lt_of_lt_of_le (LittleEndian.toNat_lt _)
      (Nat.pow_le_pow_right (by decide) (List.length_take_le 8 _))
  have hlength : length slot < UInt64.size :=
    Nat.lt_of_lt_of_le (LittleEndian.toNat_lt _)
      (Nat.pow_le_pow_right (by decide)
        (Nat.le_trans (List.length_take_le 4 _) (by decide : 4 ≤ 8)))
  rw [payload?, hlong, if_neg (by decide), Heap.search?_eq_read? h,
    UInt64.toNat_ofNat_of_lt' hpointer, UInt64.toNat_ofNat_of_lt' hlength]

end Columnar
