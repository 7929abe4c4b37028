import Columnar.Proofs.Origin

/-!
# Which rows are null

A row that is not valid is null, whatever its buffers hold, and a valid row is not, with one
exception: a string that is too long for its slot and lies where the heap has no bytes *dangles*
(`StringSlot.Dangles`), and is null as well (`Column.getItem_eq_null_iff_of_reaches`).

Nothing here is by induction. What a valid row of a nested column is made of may be null or fail,
but the row itself is a list, a struct, a map, an array or a union then, or an error
(`Layout.exists_string_of_readValid_eq_null`).
-/

namespace Columnar

/-! ### Strings that dangle -/

namespace StringSlot

/-- The slot records a string that does not lie in it, and the heap does not have it either. -/
def Dangles (heap : Heap) (slot : List UInt8) : Prop :=
  inlineLength < length slot ∧ heap.read? (pointer slot) (length slot) = none

instance (heap : Heap) (slot : List UInt8) : Decidable (Dangles heap slot) :=
  inferInstanceAs (Decidable (_ ∧ _))

theorem payload?_eq_none_iff {heap : Heap} {slot : List UInt8} :
    payload? heap slot = none ↔ Dangles heap slot := by
  unfold payload? isInline Dangles
  split
  next h =>
    have hle : length slot ≤ inlineLength := by simpa using h
    exact iff_of_false (by simp) fun hd ↦ absurd hd.1 (Nat.not_lt.2 hle)
  next h =>
    have hlt : inlineLength < length slot := by simpa using h
    exact ⟨fun hnone ↦ ⟨hlt, hnone⟩, And.right⟩

end StringSlot

/-! ### Valid rows -/

theorem StringKind.decode_ne_null (kind : StringKind) (row : Nat) (bytes : List UInt8) :
    kind.decode row bytes ≠ .ok .null := by
  intro h
  have hadmits := admits_of_decode_eq_ok h
  cases kind <;> exact hadmits

theorem EnumType.decode_ne_null (t : EnumType) (index : Nat) : t.decode index ≠ .ok .null := by
  intro h
  obtain ⟨s, -, hs⟩ := decode_eq_ok_iff.1 h
  cases hs

namespace Layout

variable {layout : Layout} {start len i : Nat}

/-- Only valid rows of strings can be null: all others are an error, or a value of their own shape.
-/
theorem exists_string_of_readValid_eq_null (h : layout.readValid start len i = .ok .null) :
    ∃ kind slots heap, layout = .string kind slots heap := by
  cases layout with
  | fixed kind slots => cases kind <;> cases h
  | string kind slots heap => exact ⟨kind, slots, heap, rfl⟩
  | decimal t width slots => cases h
  | enumeration t width slots => exact absurd h (t.decode_ne_null _)
  | list slots child =>
    obtain ⟨_, -, h⟩ := bind_eq_ok_iff.1 h
    cases h
  | struct words fields =>
    obtain ⟨_, -, h⟩ := map_eq_ok_iff.1 h
    cases h
  | map key value slots child =>
    obtain ⟨_, -, h⟩ := bind_eq_ok_iff.1 h
    obtain ⟨_, -, h⟩ := map_eq_ok_iff.1 h
    cases h
  | array length words child => cases h
  | union words tags alternatives =>
    dsimp only [readValid] at h
    split at h
    · cases h
    · obtain ⟨_, -, h⟩ := map_eq_ok_iff.1 h
      cases h

/-- A valid row is null exactly if it is a string that dangles. -/
theorem readValid_eq_null_iff :
    layout.readValid start len i = .ok .null ↔ ∃ kind slots heap,
      layout = .string kind slots heap ∧ StringSlot.Dangles heap (slots.bytes (start + i)) := by
  constructor
  · intro h
    obtain ⟨kind, slots, heap, rfl⟩ := exists_string_of_readValid_eq_null h
    dsimp only [readValid] at h
    split at h
    next hnone => exact ⟨kind, slots, heap, rfl, StringSlot.payload?_eq_none_iff.1 hnone⟩
    next => exact absurd h (kind.decode_ne_null _ _)
  · rintro ⟨kind, slots, heap, rfl, hdangles⟩
    rw [readValid, StringSlot.payload?_eq_none_iff.2 hdangles]

end Layout

namespace Column

variable {chunk : Chunk} {config : DecodeConfig} {depth id count : Nat} {t : LogicalType}
  {c d : Column}

/-- Long strings are looked for on the heap of the chunk, in all columns there are. -/
theorem heap_eq_of_reaches (hc : decodeAt chunk config depth id count t = .ok c) (hd : c.Reaches d)
    {kind : StringKind} {slots : Slots} {heap : Heap}
    (hcontent : d.content = .string kind slots heap) : heap = chunk.heap := by
  obtain ⟨_, _, _, t, w, hw, a, b, -, rfl⟩ := exists_decodeAt_of_reaches hc hd
  have hcontent : w.content = .string kind slots heap := hcontent
  obtain rfl : t = .string kind := by
    rw [← (isOpened_of_decodeAt chunk.counts_true hw trivial).type_eq, type, hcontent, Layout.type]
  obtain ⟨-, slots, -, rfl⟩ := decodeAt_string_eq_ok_iff.1 hw
  cases hcontent
  rfl

/-- In a column within reach of an opened one, a row that is not valid is null, and a valid row is
null if and only if it is a string that dangles. -/
theorem getItem_eq_null_iff_of_reaches (hc : decode chunk config id count t = .ok c)
    (hd : c.Reaches d) {i : Nat} (hi : i < d.len) :
    (d.isValid i = false → d.getItem i = .ok .null) ∧
      (d.isValid i = true → (d.getItem i = .ok .null ↔ ∃ kind slots,
        d.content = .string kind slots chunk.heap ∧
          StringSlot.Dangles chunk.heap (slots.bytes (d.start + i)))) := by
  have hopened : c.Within fun _ ↦ True := (isOpened_of_decodeAt chunk.counts_true hc trivial).within
  have hwithin : d.Within fun _ ↦ True := hopened.reaches (fun _ _ ↦ trivial) hd
  rw [hwithin.getItem_eq hi]
  refine ⟨fun hinvalid ↦ by simp [hinvalid], fun hvalid ↦ ?_⟩
  rw [if_pos hvalid, Layout.readValid_eq_null_iff]
  constructor
  · rintro ⟨kind, slots, heap, hcontent, hdangles⟩
    obtain rfl := heap_eq_of_reaches hc hd hcontent
    exact ⟨kind, slots, hcontent, hdangles⟩
  · rintro ⟨kind, slots, hcontent, hdangles⟩
    exact ⟨kind, slots, chunk.heap, hcontent, hdangles⟩

/-- A list of a short blob and of one that points to nothing. -/
def danglingElement : Chunk where
  vectors := #[
    { type := .list (.string .blob)
      data := (LittleEndian.ofNat 8 0 ++ LittleEndian.ofNat 8 2).toArray
      children := [1]
      childCount := 2 },
    { type := .string .blob
      data := (StringSlot.ofInline [7, 9] ++ StringSlot.dangling 13).toArray }]

/-- Both elements are valid, and the one that dangles is null. -/
theorem danglingElement_null :
    ∃ c d : Column, decode danglingElement {} 0 1 (.list (.string .blob)) = .ok c ∧
      c.Reaches d ∧ d.isValid 0 = true ∧ d.getItem 0 = .ok (.blob [7, 9]) ∧
      d.isValid 1 = true ∧ d.getItem 1 = .ok .null := by
  obtain ⟨c, d, slots, hc, hchild, hlen, hfirst, hvalid, hcontent, hdangles⟩ :
      ∃ c d : Column, ∃ slots, decode danglingElement {} 0 1 (.list (.string .blob)) = .ok c ∧
        c.child = .ok d ∧ d.len = 2 ∧ d.getItem 0 = .ok (.blob [7, 9]) ∧
        (d.isValid 0 = true ∧ d.isValid 1 = true) ∧
        d.content = .string .blob slots danglingElement.heap ∧
        StringSlot.Dangles danglingElement.heap (slots.bytes (d.start + 1)) :=
    ⟨_, _, _, rfl, rfl, rfl, rfl, ⟨rfl, rfl⟩, rfl, by decide⟩
  have hd : c.Reaches d := .step .refl .child trivial (by rw [access, hchild]; rfl)
  have hi : 1 < d.len := Nat.lt_of_lt_of_eq (by decide) hlen.symm
  obtain ⟨-, hnull⟩ := getItem_eq_null_iff_of_reaches hc hd hi
  exact ⟨c, d, hc, hd, hvalid.1, hfirst, hvalid.2,
    (hnull hvalid.2).2 ⟨_, slots, hcontent, hdangles⟩⟩

end Column

end Columnar
