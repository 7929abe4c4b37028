import Columnar.Proofs.Encoding
import Columnar.Proofs.ReadBack

/-!
# What an encoded vector is

A vector that was encoded from literals that fit its type keeps them (`Builder.Keeps`): whatever is
added to the chunk afterwards, the vector reads back as the literals, as long as there are levels left
for its type.

`Encoder.keepsAll` is proved by induction on the type. Every level encodes its rows, adds its
children, which keep their literals by induction, and last the vector itself; what it takes to read
that vector back is known from the chunk (`Chunk.readsBack_list` and the like).
-/

namespace Columnar

/-- The vector has the type, and every chunk that the builder ends up as reads it back as the literals
if there are `levels` levels left. -/
structure Builder.Keeps (b : Builder) (levels : Nat) (t : LogicalType) (values : List Literal)
    (id : Nat) : Prop where
  type_eq : ∃ v, b.vectors[id]? = some v ∧ v.type = t
  readsBack : ∀ {chunk : Chunk} {config : DecodeConfig} {depth : Nat}, chunk.Extends b →
    depth + levels ≤ config.maxNestingDepth + 1 → chunk.ReadsBack config depth id t values

namespace Builder.Keeps

variable {b b' : Builder} {levels more id : Nat} {t : LogicalType} {values : List Literal}

/-- What a builder keeps is kept by every other one with its vectors, whose chunks are chunks of the
first one. -/
theorem of_extends (h : b.Keeps levels t values id)
    (hvectors : ∀ (id : Nat) (v : RawVector), b.vectors[id]? = some v → b'.vectors[id]? = some v)
    (hextends : ∀ chunk : Chunk, chunk.Extends b' → chunk.Extends b) :
    b'.Keeps levels t values id where
  type_eq := by
    obtain ⟨v, hv, htype⟩ := h.type_eq
    exact ⟨v, hvectors id v hv, htype⟩
  readsBack hc hdepth := h.readsBack (hextends _ hc) hdepth

theorem of_grows (h : b.Keeps levels t values id) (hg : b.Grows b') : b'.Keeps levels t values id :=
  h.of_extends hg.vectors fun _ hc ↦ hc.of_grows hg

theorem mono (h : b.Keeps levels t values id) (hle : levels ≤ more) : b.Keeps more t values id where
  type_eq := h.type_eq
  readsBack hc hdepth := h.readsBack hc (by omega)

end Builder.Keeps

theorem Encoding.lt_sizeLimit {count width : Nat} (hwidth : width ≤ Encoder.literalSize)
    (h : count * Encoder.literalSize < memoryLimit) : count * width < Chunk.sizeLimit := by
  have hmul : count * width ≤ count * Encoder.literalSize := Nat.mul_le_mul_left count hwidth
  have hlimit : memoryLimit < Chunk.sizeLimit := by decide
  omega

namespace Encoder

variable {b : Builder} {values : List Literal}

/-! ### Slots -/

section Slots

variable {width : Nat} {encode : Literal → Encoding (List UInt8)}

/-- The slot of a literal is what its bytes are followed by zeros. A null takes up a slot as well, which
is nothing but zeros. -/
def slotOf (width : Nat) (encode : Literal → Encoding (List UInt8)) (l : Literal) :
    Encoding (List UInt8) :=
  if l.isNull then return List.replicate width 0
  else do
    let bytes ← encode l
    return bytes ++ List.replicate (width - bytes.length) 0

theorem slotOf_null : slotOf width encode .null = .ok (List.replicate width 0) := rfl

theorem slotOf_of_ne_null {l : Literal} (h : l ≠ .null) :
    slotOf width encode l =
      encode l >>= fun bytes ↦ pure (bytes ++ List.replicate (width - bytes.length) 0) := by
  rw [slotOf, Literal.isNull_eq_false h]
  rfl

/-- Slots are made if there is memory for them all and each literal has one, and then they are put one
after the other. -/
theorem encodeSlots_eq_ok_iff {data : Array UInt8} :
    encodeSlots width encode values = .ok data ↔
      values.length * width < Encoding.memoryLimit ∧ ∃ slots : List (List UInt8),
        List.Forall₂ (fun l slot ↦ slotOf width encode l = .ok slot) values slots ∧
          data = slots.flatten.toArray := by
  have hencode : encodeSlots width encode values =
      (Encoding.reserve values.length width >>= fun _ ↦
        (·.flatten.toArray) <$> values.mapM (slotOf width encode)) := rfl
  simp only [hencode, bind_eq_ok_iff, map_eq_ok_iff, mapM_eq_ok_iff, eq_comm (a := data)]
  exact ⟨fun ⟨⟨⟩, hreserve, h⟩ ↦ ⟨Encoding.reserve_eq_ok_iff.1 hreserve, h⟩,
    fun ⟨hreserve, h⟩ ↦ ⟨(), Encoding.reserve_eq_ok_iff.2 hreserve, h⟩⟩

/-- Literals that can be encoded one by one into no more bytes than a slot has are encoded into slots,
which are what the bytes are followed by zeros. -/
theorem exists_encodeSlots {P : Literal → List UInt8 → Prop}
    (hreserve : values.length * width < Encoding.memoryLimit)
    (h : ∀ l ∈ values, l ≠ .null → ∃ bytes, encode l = .ok bytes ∧ bytes.length ≤ width ∧
      P l (bytes ++ List.replicate (width - bytes.length) 0)) :
    ∃ slots : List (List UInt8), encodeSlots width encode values = .ok slots.flatten.toArray ∧
      List.Forall₂ (fun l slot ↦ slot.length = width ∧ (l ≠ .null → P l slot)) values slots := by
  have hslot : ∀ l ∈ values, ∃ slot, slotOf width encode l = .ok slot ∧ slot.length = width ∧
      (l ≠ .null → P l slot) := by
    intro l hl
    by_cases hnull : l = .null
    · subst hnull
      exact ⟨List.replicate width 0, rfl, List.length_replicate, fun hne ↦ absurd rfl hne⟩
    · obtain ⟨bytes, hbytes, hlen, hP⟩ := h l hl hnull
      refine ⟨bytes ++ List.replicate (width - bytes.length) 0, ?_, ?_, fun _ ↦ hP⟩
      · rw [slotOf_of_ne_null hnull, hbytes, ok_bind]
        rfl
      · rw [List.length_append, List.length_replicate]
        omega
  obtain ⟨slots, hslots⟩ := exists_forall₂ hslot
  exact ⟨slots, encodeSlots_eq_ok_iff.2 ⟨hreserve, slots, hslots.imp fun _ _ h ↦ h.1, rfl⟩,
    hslots.imp fun _ _ h ↦ h.2⟩

end Slots

/-- A vector of slots is added with those of its literals. -/
theorem ensures_addSlots {type : LogicalType} {width : Nat}
    {encode : Literal → Encoding (List UInt8)} {P : Literal → List UInt8 → Prop}
    (hreserve : values.length * width < Encoding.memoryLimit)
    (h : ∀ l ∈ values, l ≠ .null → ∃ bytes, encode l = .ok bytes ∧ bytes.length ≤ width ∧
      P l (bytes ++ List.replicate (width - bytes.length) 0)) :
    Ensures (addLeaf type values (encodeSlots width encode values)) b fun id b' ↦
      ∃ v, b'.vectors[id]? = some v ∧ v.type = type ∧ v.Stores width values P := by
  obtain ⟨slots, hslots, hall⟩ := exists_encodeSlots hreserve h
  exact (ensures_addLeaf hslots).imp fun id b' _ hv ↦ ⟨_, hv, rfl, rfl, slots, rfl, hall⟩

/-! ### Leaves -/

/-- Nothing follows bytes that fill their slot. -/
theorem append_zeros_of_length_eq {bytes : List UInt8} {width : Nat} (h : bytes.length = width) :
    bytes ++ List.replicate (width - bytes.length) 0 = bytes := by
  rw [h, Nat.sub_self, List.replicate_zero, List.append_nil]

open Column (slotWidth slotWidth_congr width_le_slotWidth)

/-- There is memory for the slots of a fixed width. -/
theorem slotWidth_lt {kind : FixedKind}
    (h : (LogicalType.fixed kind).Affordable b.booleanWidth b.listPadding values) :
    values.length * slotWidth b.toChunk kind < Encoding.memoryLimit := by
  by_cases hboolean : kind = .boolean
  · subst hboolean
    rw [LogicalType.Affordable] at h
    exact h.2
  · have hwidth : slotWidth b.toChunk kind = kind.width := by
      cases kind with
      | boolean => exact absurd rfl hboolean
      | _ => rfl
    have hle : kind.width ≤ literalSize := Nat.le_trans kind.width_le (by decide)
    rw [hwidth]
    exact Nat.lt_of_le_of_lt (Nat.mul_le_mul_left _ hle) h.length_lt

theorem ensures_addFixed {kind : FixedKind}
    (haccepts : ∀ l ∈ values, (LogicalType.fixed kind).Accepts l)
    (hafford : (LogicalType.fixed kind).Affordable b.booleanWidth b.listPadding values) :
    Ensures (addFixed kind values) b fun id b' ↦ b'.Keeps 1 (.fixed kind) values id := by
  have hsize := slotWidth_lt hafford
  have hencode : ∀ l ∈ values, l ≠ .null → ∃ bytes, kind.encode l = .ok bytes ∧
      bytes.length ≤ slotWidth b.toChunk kind ∧
        kind.decode (bytes ++ List.replicate (slotWidth b.toChunk kind - bytes.length) 0) =
          l.scalar := by
    intro l hl hne
    have haccept := haccepts l hl
    rw [LogicalType.Accepts] at haccept
    obtain ⟨bytes, hbytes, hlen, hdecode⟩ := FixedKind.encode_of_admits (haccept.resolve_left hne)
    have hbool : 1 ≤ b.toChunk.booleanWidth := b.booleanWidth_pos
    refine ⟨bytes, hbytes, hlen ▸ width_le_slotWidth hbool kind, ?_⟩
    rw [FixedKind.decode_append_zeros hlen, hdecode]
  -- Only booleans ask how many bytes they are to have, but all others may be said to.
  have hadd : addFixed kind values = get >>= fun b ↦ addLeaf (.fixed kind) values
      (encodeSlots (slotWidth b.toChunk kind) kind.encode values) := by
    cases kind <;> rfl
  rw [hadd]
  refine ensures_get.bind fun s b₁ hg₁ hs ↦ ?_
  obtain ⟨rfl, rfl⟩ := hs
  refine (ensures_addSlots (P := fun l slot ↦ kind.decode slot = l.scalar) hsize hencode).imp
    fun id b₂ hg₂ hv ↦ ?_
  obtain ⟨v, hv, htype, hstores⟩ := hv
  refine ⟨⟨v, hv, htype⟩, fun {chunk config depth} hc hdepth ↦ ?_⟩
  have hwidth : slotWidth chunk kind = slotWidth b₁.toChunk kind :=
    slotWidth_congr (hc.booleanWidth_eq.trans hg₂.booleanWidth_eq) kind
  have hlimit : Encoding.memoryLimit < Chunk.sizeLimit := by decide
  refine Chunk.readsBack_fixed (by omega) (hc.vectors id v hv) (hwidth ▸ hstores) ?_ ?_
  · have hbool : 1 ≤ b₁.toChunk.booleanWidth := b₁.booleanWidth_pos
    rw [hwidth]
    exact width_le_slotWidth hbool kind
  · rw [hwidth]
    exact Nat.lt_trans hsize hlimit

theorem ensures_addDecimals {t : DecimalType}
    (hstorable : (LogicalType.decimal t).Storable)
    (haccepts : ∀ l ∈ values, (LogicalType.decimal t).Accepts l)
    (hafford : (LogicalType.decimal t).Affordable b.booleanWidth b.listPadding values) :
    Ensures (addLeaf (.decimal t) values (t.encodeSlots values)) b fun id b' ↦
      b'.Keeps 1 (.decimal t) values id := by
  rw [LogicalType.Storable] at hstorable
  obtain ⟨hpos, hle, hscale⟩ := hstorable
  obtain ⟨width, hwidth⟩ := DecimalType.physicalWidth?_eq_some_iff.2 ⟨hpos, hle⟩
  have hwidthLe : width ≤ literalSize :=
    Nat.le_trans (DecimalType.le_of_physicalWidth hwidth) (by decide)
  have hencode : ∀ l ∈ values, l ≠ .null → ∃ bytes, t.encode width l = .ok bytes ∧
      bytes.length ≤ width ∧ Value.decimal ⟨LittleEndian.toInt
        ((bytes ++ List.replicate (width - bytes.length) 0).take width), t.width, t.scale⟩ =
          t.valueOf l := by
    intro l hl hne
    have haccept := haccepts l hl
    rw [LogicalType.Accepts] at haccept
    obtain ⟨bytes, hbytes, hlen, hdecode⟩ :=
      DecimalType.encode_of_accepts hwidth (haccept.resolve_left hne)
    refine ⟨bytes, hbytes, Nat.le_of_eq hlen, ?_⟩
    rw [append_zeros_of_length_eq hlen, hdecode]
  have hreserve : values.length * width < Encoding.memoryLimit :=
    Nat.lt_of_le_of_lt (Nat.mul_le_mul_left _ hwidthLe) hafford.length_lt
  rw [DecimalType.encodeSlots, hwidth]
  refine (ensures_addSlots (P := fun l slot ↦ Value.decimal ⟨LittleEndian.toInt (slot.take width),
    t.width, t.scale⟩ = t.valueOf l) hreserve hencode).imp fun id b' _ hv ↦ ?_
  obtain ⟨v, hv, htype, hstores⟩ := hv
  refine ⟨⟨v, hv, htype⟩, fun hc hdepth ↦ ?_⟩
  exact Chunk.readsBack_decimal (by omega) (hc.vectors id v hv) hscale hwidth hstores
    (Encoding.lt_sizeLimit hwidthLe hafford.length_lt)

theorem ensures_addEnumeration {t : EnumType}
    (haccepts : ∀ l ∈ values, (LogicalType.enumeration t).Accepts l)
    (hafford : (LogicalType.enumeration t).Affordable b.booleanWidth b.listPadding values) :
    Ensures (addLeaf (.enumeration t) values (t.encodeSlots values)) b fun id b' ↦
      b'.Keeps 1 (.enumeration t) values id := by
  have hwidthLe : t.indexWidth ≤ literalSize := by
    rw [EnumType.indexWidth]
    split_ifs <;> decide
  have hencode : ∀ l ∈ values, l ≠ .null → ∃ bytes,
      (LittleEndian.ofNat t.indexWidth <$> t.indexOf l) = .ok bytes ∧ bytes.length ≤ t.indexWidth ∧
        t.decode (LittleEndian.toNat ((bytes ++
          List.replicate (t.indexWidth - bytes.length) 0).take t.indexWidth)) = .ok (t.valueOf l) := by
    intro l hl hne
    have haccept := haccepts l hl
    rw [LogicalType.Accepts] at haccept
    obtain ⟨bytes, hbytes, hlen, hdecode⟩ := EnumType.encode_of_accepts (haccept.resolve_left hne)
    refine ⟨bytes, hbytes, Nat.le_of_eq hlen, ?_⟩
    rw [append_zeros_of_length_eq hlen, hdecode]
  have hreserve : values.length * t.indexWidth < Encoding.memoryLimit :=
    Nat.lt_of_le_of_lt (Nat.mul_le_mul_left _ hwidthLe) hafford.length_lt
  refine (ensures_addSlots (P := fun l slot ↦ t.decode (LittleEndian.toNat
    (slot.take t.indexWidth)) = .ok (t.valueOf l)) hreserve hencode).imp fun id b' _ hv ↦ ?_
  obtain ⟨v, hv, htype, hstores⟩ := hv
  refine ⟨⟨v, hv, htype⟩, fun hc hdepth ↦ ?_⟩
  exact Chunk.readsBack_enumeration (by omega) (hc.vectors id v hv) hstores
    (Encoding.lt_sizeLimit hwidthLe hafford.length_lt)

/-- A string that fits is not one of those that lie nowhere. -/
theorem stringSlot_of_accepts {kind : StringKind} {l : Literal} (h : kind.Accepts l) :
    stringSlot kind l = (do
      let bytes ← kind.encode l
      if bytes.length ≤ StringSlot.inlineLength then return StringSlot.ofInline bytes
      else return StringSlot.ofPointer bytes (← allocate bytes)) := by
  cases l with
  | null => cases kind <;> exact h.elim
  | dangling length => cases kind <;> exact h.elim
  | _ => rfl

/-- The slot gives the value of the string in every chunk that the builder ends up as. -/
def KeepsString (kind : StringKind) (l : Literal) (slot : List UInt8) (b : Builder) : Prop :=
  slot.length = StringSlot.width ∧ (l ≠ .null → ∀ chunk : Chunk, chunk.Extends b →
    ∃ bytes, StringSlot.payload? chunk.heap slot = some bytes ∧
      ∀ row, kind.decode row bytes = .ok l.stringValue)

theorem ensures_stringSlot {kind : StringKind} {l : Literal}
    (h : (LogicalType.string kind).Accepts l) :
    Ensures (stringSlot kind l) b (KeepsString kind l) := by
  rw [LogicalType.Accepts] at h
  rcases h with rfl | h
  · exact .pure ⟨List.length_replicate, fun hne ↦ absurd rfl hne⟩
  · obtain ⟨bytes, hbytes, hsize, hdecode⟩ := StringKind.encode_of_accepts h
    rw [stringSlot_of_accepts h]
    refine (ensures_lift hbytes).bind fun bytes' b₁ _ hb ↦ ?_
    obtain ⟨rfl, rfl⟩ := hb
    split
    next hle =>
      refine .pure ⟨StringSlot.length_ofInline hle, fun _ chunk _ ↦ ?_⟩
      exact ⟨bytes', StringSlot.payload?_ofInline chunk.heap hle, hdecode⟩
    next hlong =>
      have hlong : StringSlot.inlineLength < bytes'.length := Nat.lt_of_not_le hlong
      refine (ensures_allocate bytes').bind fun address b₂ _ hp ↦ ?_
      refine .pure ⟨StringSlot.length_ofPointer hlong address, fun _ chunk hc ↦ ?_⟩
      refine ⟨bytes', ?_, hdecode⟩
      -- The payload is in the chunk, and so it has an address of 64 bits and is found by it.
      have hmem := hc.heap _ hp
      have haddress : address + bytes'.length ≤ UInt64.size := hc.addressable _ hmem
      have hpos : 0 < bytes'.length := Nat.lt_of_le_of_lt (Nat.zero_le _) hlong
      rw [StringSlot.payload?_ofPointer chunk.heap hlong hsize (by omega)]
      exact Heap.read?_of_mem hc.apart hmem hpos

theorem ensures_addStrings {kind : StringKind}
    (haccepts : ∀ l ∈ values, (LogicalType.string kind).Accepts l)
    (hafford : (LogicalType.string kind).Affordable b.booleanWidth b.listPadding values) :
    Ensures (addStrings kind values) b fun id b' ↦ b'.Keeps 1 (.string kind) values id := by
  have hkeeps : ∀ l slot b₁ b₂, Builder.Grows b₁ b₂ → KeepsString kind l slot b₁ →
      KeepsString kind l slot b₂ :=
    fun l slot b₁ b₂ hg h ↦ ⟨h.1, fun hne chunk hc ↦ h.2 hne chunk (hc.of_grows hg)⟩
  have hslots : ∀ l ∈ values, ∀ b', b.Grows b' →
      Ensures (stringSlot kind l) b' (KeepsString kind l) :=
    fun l hl b' _ ↦ ensures_stringSlot (haccepts l hl)
  -- Later strings put more payloads on the heap, which leaves those of earlier ones in place.
  refine (Ensures.mapM hkeeps hslots).bind fun slots b₁ hg₁ hall ↦ ?_
  refine (ensures_addLeaf rfl).imp fun id b₂ hg₂ hv ↦ ?_
  refine ⟨⟨_, hv, rfl⟩, fun {chunk config depth} hc hdepth ↦ ?_⟩
  refine Chunk.readsBack_string (by omega) (hc.vectors id _ hv) ⟨rfl, slots, rfl, ?_⟩
    (Encoding.lt_sizeLimit (by decide) hafford.length_lt)
  exact hall.imp fun l slot h ↦ ⟨h.1, fun hne ↦ h.2 hne chunk (hc.of_grows hg₂)⟩

/-! ### Lists -/

/-- The elements of a list literal, as a row of lists. -/
def listOf : Literal → Option (List Literal)
  | .list items => some items
  | _ => none

theorem mapM_listRow {element : LogicalType}
    (h : ∀ l ∈ values, (LogicalType.list element).Accepts l) (type : LogicalType) :
    values.mapM (listRow type) = .ok (values.map listOf) := by
  refine mapM_eq_ok_map fun l hl ↦ ?_
  rcases LogicalType.accepts_list_iff.1 (h l hl) with rfl | ⟨items, rfl, -⟩ <;> rfl

theorem flatMap_listOf (values : List Literal) :
    (values.map listOf).flatMap (·.getD []) = values.flatMap Literal.items := by
  rw [List.flatMap_map]
  refine congrArg (fun f ↦ List.flatMap f values) (funext fun l ↦ ?_)
  cases l <;> rfl

open LogicalType (listed)

/-- A vector of lists is added behind that of the elements, with entries that say where these are. -/
theorem ensures_addLists {type element : LogicalType} {lists : List Literal} {levels : Nat}
    {addElements : List Literal → Encoder Nat} (hnull : bitmapOf values = bitmapOf lists)
    (haccepts : ∀ l ∈ lists, (LogicalType.list element).Accepts l)
    (hreserve : (listed b.listPadding lists).length * literalSize < Encoding.memoryLimit)
    (helements : Ensures (addElements (listed b.listPadding lists)) b fun child b' ↦
      b'.Keeps levels element (listed b.listPadding lists) child) :
    Ensures (addLists type values (lists.map listOf) addElements) b fun id b' ↦ ∃ v child,
      b'.vectors[id]? = some v ∧ v.type = type ∧ v.children.head? = some child ∧
        v.childCount = (listed b.listPadding lists).length ∧
        v.Stores entryWidth lists (fun l slot ↦ LiesAt (listed b.listPadding lists) l.items slot) ∧
        b'.Keeps levels element (listed b.listPadding lists) child := by
  have hlisted : (lists.map listOf).flatMap (·.getD []) ++ List.replicate b.listPadding .null =
      listed b.listPadding lists := by
    rw [flatMap_listOf, listed]
  have hlength : ((lists.map listOf).flatMap (·.getD [])).length + b.listPadding =
      (listed b.listPadding lists).length := by
    rw [← hlisted, List.length_append, List.length_replicate]
  refine ensures_get.bind fun s b₁ _ hs ↦ ?_
  obtain ⟨rfl, rfl⟩ := hs
  refine (ensures_lift (a := ()) ?_).bind fun _ b₂ _ hb ↦ ?_
  · rw [hlength]
    exact Encoding.reserve_eq_ok_iff.2 hreserve
  obtain ⟨-, rfl⟩ := hb
  rw [hlisted]
  refine helements.bind fun child b₃ _ hkeeps ↦ ?_
  refine (ensures_push _).imp fun id b₄ hg hv ↦ ?_
  refine ⟨_, child, hv, rfl, rfl, rfl, ⟨hnull, ?_⟩, hkeeps.of_grows hg⟩
  -- Without the padding, the entries are those of lists from the first row on.
  have hbound : (([] : List Literal) ++ (lists.map listOf).flatMap (·.getD [])).length <
      UInt64.size := by
    have hlimit : Encoding.memoryLimit < UInt64.size := by decide
    have hsize : (listed b₂.listPadding lists).length * 32 < Encoding.memoryLimit := hreserve
    rw [List.nil_append]
    omega
  obtain ⟨slots, hslots, hall⟩ := exists_entrySlots [] (lists.map listOf) hbound
  refine ⟨slots, congrArg List.toArray hslots, ?_⟩
  rw [List.forall₂_map_left_iff] at hall
  refine ((List.forall₂_and_left _ _).2 ⟨haccepts, hall⟩).imp fun l slot h ↦ ?_
  obtain ⟨haccept, hlen, hlies⟩ := h
  refine ⟨hlen, fun hne ↦ ?_⟩
  rcases LogicalType.accepts_list_iff.1 haccept with rfl | ⟨items, rfl, -⟩
  · exact absurd rfl hne
  · rw [← hlisted]
    exact (hlies items rfl).append _

/-! ### Structs -/

/-- The fields of a struct literal, as a row of structs. -/
def fieldsOf : Literal → Option (List Literal)
  | .struct fields => some fields
  | _ => none

theorem mapM_structRow {fields : List (String × LogicalType)}
    (h : ∀ l ∈ values, (LogicalType.struct fields).Accepts l) (type : LogicalType) :
    values.mapM (structRow type fields.length) = .ok (values.map fieldsOf) := by
  refine mapM_eq_ok_map fun l hl ↦ ?_
  rcases LogicalType.accepts_struct_iff.1 (h l hl) with rfl | ⟨lits, rfl, hlen, -⟩
  · rfl
  · exact if_pos hlen

theorem fieldOf_fieldsOf (index : Nat) (values : List Literal) :
    fieldOf index (values.map fieldsOf) = values.map (Literal.field index) := by
  rw [fieldOf, List.map_map]
  refine List.map_congr_left fun l _ ↦ ?_
  cases l with
  | struct fields => exact List.getD_eq_getElem?_getD.symm
  | _ => rfl

theorem addFields_eq_mapM (rows : List (Option (List Literal))) (index : Nat)
    (addEach : List (List Literal → Encoder Nat)) :
    addFields rows index addEach =
      (addEach.zipIdx index).mapM fun a ↦ a.1 (fieldOf a.2 rows) := by
  induction addEach generalizing index with
  | nil => rfl
  | cons addField rest ih =>
    rw [addFields, List.zipIdx_cons, List.mapM_cons]
    simp only [ih]

theorem fieldEncoders_eq_map (fields : List (String × LogicalType)) :
    fieldEncoders fields = fields.map fun f values ↦ addVector f.2 values := by
  induction fields with
  | nil => rfl
  | cons f fields ih =>
    obtain ⟨name, t⟩ := f
    rw [fieldEncoders, ih]
    rfl

/-- A vector of structs is added behind those of its fields. -/
theorem ensures_addStructs {type : LogicalType} {structs : List Literal} {levels : Nat}
    {fields : List (String × LogicalType)} (hnull : bitmapOf values = bitmapOf structs)
    (hfields : ∀ f ∈ fields.zipIdx, ∀ b', b.Grows b' →
      Ensures (addVector f.1.2 (structs.map (Literal.field f.2))) b' fun child b'' ↦
        b''.Keeps levels f.1.2 (structs.map (Literal.field f.2)) child) :
    Ensures (addStructs type values (structs.map fieldsOf) (fields.map fun f values ↦
        addVector f.2 values)) b fun id b' ↦ ∃ v,
      b'.vectors[id]? = some v ∧ v.type = type ∧ v.validity = bitmapOf structs ∧
        ∀ f ∈ fields.zipIdx, ∃ child, v.children[f.2]? = some child ∧
          b'.Keeps levels f.1.2 (structs.map (Literal.field f.2)) child := by
  have hadd : addFields (structs.map fieldsOf) 0 (fields.map fun f values ↦ addVector f.2 values) =
      fields.zipIdx.mapM fun f ↦ addVector f.1.2 (structs.map (Literal.field f.2)) := by
    rw [addFields_eq_mapM, List.zipIdx_map, List.mapM_map]
    simp only [fieldOf_fieldsOf]
    rfl
  rw [addStructs, hadd]
  have hgrows : ∀ (f : (String × LogicalType) × Nat) (child : Nat) (b₁ b₂ : Builder), b₁.Grows b₂ →
      b₁.Keeps levels f.1.2 (structs.map (Literal.field f.2)) child →
      b₂.Keeps levels f.1.2 (structs.map (Literal.field f.2)) child :=
    fun _ _ _ _ hg h ↦ h.of_grows hg
  refine (Ensures.mapM hgrows hfields).bind fun children b₁ _ hall ↦ ?_
  refine (ensures_push _).imp fun id b₂ hg hv ↦ ⟨_, hv, rfl, hnull, fun f hf ↦ ?_⟩
  obtain ⟨f, index⟩ := f
  have hf : fields[index]? = some f := List.mem_zipIdx_iff_getElem?.1 hf
  obtain ⟨child, hchild, hkeeps⟩ := exists_getElem?_of_forall₂ hall hf
  rw [Nat.zero_add] at hkeeps
  exact ⟨child, hchild, hkeeps.of_grows hg⟩

/-- Maps are encoded as lists of their pairs. -/
theorem mapM_mapRow {key value : LogicalType}
    (h : ∀ l ∈ values, (LogicalType.map key value).Accepts l) (type : LogicalType) :
    values.mapM (mapRow type) = .ok ((values.map Literal.entries).map listOf) := by
  rw [List.map_map]
  refine mapM_eq_ok_map fun l hl ↦ ?_
  rcases LogicalType.accepts_map_iff.1 (h l hl) with rfl | ⟨pairs, rfl, -⟩ <;> rfl

theorem bitmapOf_entries {key value : LogicalType}
    (h : ∀ l ∈ values, (LogicalType.map key value).Accepts l) :
    bitmapOf (values.map Literal.entries) = bitmapOf values := by
  refine bitmapOf_map fun l hl ↦ ?_
  rcases LogicalType.accepts_map_iff.1 (h l hl) with rfl | ⟨pairs, rfl, -⟩ <;> rfl

/-- Unions are encoded as structs of their members. -/
theorem mapM_unionRow {alternatives : List (String × LogicalType)}
    (h : ∀ l ∈ values, (LogicalType.union alternatives).Accepts l) (type : LogicalType) :
    values.mapM (unionRow type alternatives.length) =
      .ok ((values.map (Literal.members alternatives.length)).map fieldsOf) := by
  rw [List.map_map]
  refine mapM_eq_ok_map fun l hl ↦ ?_
  rcases LogicalType.accepts_union_iff.1 (h l hl) with rfl | ⟨tag, member, a, rfl, -, -⟩ <;> rfl

theorem bitmapOf_members {alternatives : List (String × LogicalType)}
    (h : ∀ l ∈ values, (LogicalType.union alternatives).Accepts l) :
    bitmapOf (values.map (Literal.members alternatives.length)) = bitmapOf values := by
  refine bitmapOf_map fun l hl ↦ ?_
  rcases LogicalType.accepts_union_iff.1 (h l hl) with rfl | ⟨tag, member, a, rfl, -, -⟩ <;> rfl

theorem mapM_arrayRow {element : LogicalType} {length : UInt64}
    (h : ∀ l ∈ values, (LogicalType.array element length).Accepts l) (type : LogicalType) :
    values.mapM (arrayRow type length.toNat) =
      .ok (values.map (Literal.elements length.toNat)) := by
  refine mapM_eq_ok_map fun l hl ↦ ?_
  rcases LogicalType.accepts_array_iff.1 (h l hl) with rfl | ⟨items, rfl, hlen, -⟩
  · rfl
  · exact if_pos hlen

/-! ### Vectors of each type -/

/-- What there is memory for does not change while a chunk grows. -/
theorem affordable_of_grows {b b' : Builder} {t : LogicalType} (hg : b.Grows b')
    (h : t.Affordable b.booleanWidth b.listPadding values) :
    t.Affordable b'.booleanWidth b'.listPadding values := by
  rwa [hg.booleanWidth_eq, hg.listPadding_eq]

/-- What the encoder of a type does for literals that fit: it adds a vector that keeps them. -/
def KeepsAll (t : LogicalType) : Prop :=
  ∀ {values : List Literal} {b : Builder}, t.Storable → (∀ l ∈ values, t.Accepts l) →
    t.Affordable b.booleanWidth b.listPadding values →
    Ensures (addVector t values) b fun id b' ↦ b'.Keeps (t.depth + 1) t values id

/-- Fields that keep their literals make a vector of structs that does. -/
theorem ensures_addStruct {fields : List (String × LogicalType)} {levels : Nat}
    (hlevels : ∀ f ∈ fields, f.2.depth + 1 ≤ levels) (hpos : 0 < levels)
    (ih : ∀ f ∈ fields, KeepsAll f.2) (hstorable : ∀ f ∈ fields, f.2.Storable)
    (haccepts : ∀ l ∈ values, (LogicalType.struct fields).Accepts l)
    (hafford : ∀ f ∈ fields.zipIdx,
      f.1.2.Affordable b.booleanWidth b.listPadding (values.map (Literal.field f.2))) :
    Ensures (addVector (.struct fields) values) b fun id b' ↦
      b'.Keeps (levels + 1) (.struct fields) values id := by
  show Ensures (checked (structRow (.struct fields) fields.length) values >>= fun rows ↦
    addStructs (.struct fields) values rows (fieldEncoders fields)) b _
  rw [fieldEncoders_eq_map]
  refine (ensures_checked (mapM_structRow haccepts _)).bind fun rows b₁ _ hrows ↦ ?_
  obtain ⟨rfl, rfl⟩ := hrows
  have hfields : ∀ f ∈ fields.zipIdx, ∀ b', b₁.Grows b' →
      Ensures (addVector f.1.2 (values.map (Literal.field f.2))) b' fun child b'' ↦
        b''.Keeps levels f.1.2 (values.map (Literal.field f.2)) child := by
    intro f hf b' hg
    have hmem : f.1 ∈ fields := List.fst_mem_of_mem_zipIdx hf
    have hfits : ∀ l ∈ values.map (Literal.field f.2), f.1.2.Accepts l := by
      intro l hl
      obtain ⟨row, hrow, rfl⟩ := List.mem_map.1 hl
      exact LogicalType.accepts_field (haccepts row hrow) hf
    refine (ih _ hmem (hstorable _ hmem) hfits (affordable_of_grows hg (hafford f hf))).imp ?_
    exact fun _ _ _ h ↦ h.mono (hlevels _ hmem)
  refine (ensures_addStructs rfl hfields).imp fun id b₂ _ hv ↦ ?_
  obtain ⟨v, hv, htype, hvalidity, hchildren⟩ := hv
  refine ⟨⟨v, hv, htype⟩, fun hc hdepth ↦ ?_⟩
  refine Chunk.readsBack_struct (by omega) (hc.vectors id v hv) hvalidity (fun f hf ↦ ?_) haccepts
  obtain ⟨child, hchild, hkeeps⟩ := hchildren f hf
  exact ⟨child, hchild, hkeeps.readsBack hc (by omega)⟩

theorem ensures_addList {element : LogicalType} (ih : KeepsAll element) :
    KeepsAll (.list element) := by
  intro values b hstorable haccepts hafford
  rw [LogicalType.Storable] at hstorable
  have hlength := hafford.length_lt
  rw [LogicalType.Affordable] at hafford
  show Ensures (checked (listRow (.list element)) values >>= fun rows ↦
    addLists (.list element) values rows fun items ↦ addVector element items) b _
  refine (ensures_checked (mapM_listRow haccepts _)).bind fun rows b₁ _ hrows ↦ ?_
  obtain ⟨rfl, rfl⟩ := hrows
  have helements := ih hstorable (LogicalType.accepts_listed haccepts) hafford.2
  refine (ensures_addLists rfl haccepts hafford.2.length_lt helements).imp fun id b₂ _ hv ↦ ?_
  obtain ⟨v, child, hv, htype, hchild, hcount, hstores, hkeeps⟩ := hv
  refine ⟨⟨v, hv, htype⟩, fun hc hdepth ↦ ?_⟩
  rw [LogicalType.depth] at hdepth
  exact Chunk.readsBack_list (by omega) (hc.vectors id v hv) hchild hcount hstores
    (Encoding.lt_sizeLimit (by decide) hlength) (hkeeps.readsBack hc (by omega)) haccepts

theorem ensures_addMap {key value : LogicalType} (ihKey : KeepsAll key) (ihValue : KeepsAll value) :
    KeepsAll (.map key value) := by
  intro values b hstorable haccepts hafford
  rw [LogicalType.Storable] at hstorable
  have hlength := hafford.length_lt
  rw [LogicalType.Affordable] at hafford
  obtain ⟨-, hreserve, hkeys, hvalues⟩ := hafford
  -- The pairs are structs of two fields, which are encoded as any other structs are.
  show Ensures (checked (mapRow (.map key value)) values >>= fun rows ↦
    addLists (.map key value) values rows fun items ↦
      addVector (.struct (LogicalType.mapEntry key value)) items) b _
  refine (ensures_checked (mapM_mapRow haccepts _)).bind fun rows b₁ _ hrows ↦ ?_
  obtain ⟨rfl, rfl⟩ := hrows
  have hentries : ∀ l ∈ values.map Literal.entries,
      (LogicalType.list (.struct (LogicalType.mapEntry key value))).Accepts l := by
    intro l hl
    obtain ⟨row, hrow, rfl⟩ := List.mem_map.1 hl
    exact LogicalType.accepts_entries (haccepts row hrow)
  have helements : Ensures (addVector (.struct (LogicalType.mapEntry key value))
      (listed b₁.listPadding (values.map Literal.entries))) b₁ fun child b' ↦
        b'.Keeps (max key.depth value.depth + 1 + 1) (.struct (LogicalType.mapEntry key value))
          (listed b₁.listPadding (values.map Literal.entries)) child := by
    refine ensures_addStruct (fun f hf ↦ ?_) (Nat.succ_pos _) (fun f hf ↦ ?_) (fun f hf ↦ ?_)
      (LogicalType.accepts_listed hentries) fun f hf ↦ ?_
    · rcases List.mem_pair.1 hf with rfl | rfl
      · exact Nat.succ_le_succ (Nat.le_max_left _ _)
      · exact Nat.succ_le_succ (Nat.le_max_right _ _)
    · rcases List.mem_pair.1 hf with rfl | rfl
      · exact ihKey
      · exact ihValue
    · rcases List.mem_pair.1 hf with rfl | rfl
      · exact hstorable.1
      · exact hstorable.2
    · rcases List.mem_pair.1 hf with rfl | rfl
      · exact hkeys
      · exact hvalues
  refine (ensures_addLists (bitmapOf_entries haccepts).symm hentries hreserve helements).imp
    fun id b₂ _ hv ↦ ?_
  obtain ⟨v, child, hv, htype, hchild, hcount, hstores, hkeeps⟩ := hv
  refine ⟨⟨v, hv, htype⟩, fun hc hdepth ↦ ?_⟩
  rw [LogicalType.depth] at hdepth
  exact Chunk.readsBack_map (by omega) (hc.vectors id v hv) hchild hcount hstores
    (Encoding.lt_sizeLimit (by decide) hlength) (hkeeps.readsBack hc (by omega)) haccepts

theorem ensures_addArray {element : LogicalType} {length : UInt64} (ih : KeepsAll element) :
    KeepsAll (.array element length) := by
  intro values b hstorable haccepts hafford
  rw [LogicalType.Storable] at hstorable
  rw [LogicalType.Affordable] at hafford
  have hcount : (values.flatMap (Literal.elements length.toNat)).length =
      values.length * length.toNat := by
    rw [List.flatMap_def, length_flatten_of_length_eq (Chunk.length_elements haccepts),
      List.length_map]
  have hsize := hafford.2.length_lt
  rw [hcount] at hsize
  have hfits : ∀ item ∈ values.flatMap (Literal.elements length.toNat), element.Accepts item := by
    intro item hitem
    obtain ⟨l, hl, hitem⟩ := List.mem_flatMap.1 hitem
    exact (LogicalType.accepts_elements (haccepts l hl)).2 item hitem
  -- All elements have their memory before the first row is looked at.
  show Ensures (liftM (Encoding.reserve (values.length * length.toNat) literalSize) >>= fun _ ↦
    checked (arrayRow (.array element length) length.toNat) values >>= fun rows ↦
    addVector element rows.flatten >>= fun child ↦ push
      { type := .array element length, validity := bitmapOf values, children := [child] }) b _
  refine (ensures_lift (Encoding.reserve_eq_ok_iff.2 hsize)).bind fun _ b₁ _ hb ↦ ?_
  obtain ⟨-, rfl⟩ := hb
  refine (ensures_checked (mapM_arrayRow haccepts _)).bind fun rows b₁ _ hrows ↦ ?_
  obtain ⟨rfl, rfl⟩ := hrows
  refine (ih hstorable hfits hafford.2).bind fun child b₂ _ hkeeps ↦ ?_
  refine (ensures_push _).imp fun id b₃ hg hv ↦ ⟨⟨_, hv, rfl⟩, fun hc hdepth ↦ ?_⟩
  rw [LogicalType.depth] at hdepth
  refine Chunk.readsBack_array (by omega) (hc.vectors id _ hv) rfl rfl ?_
    ((hkeeps.of_grows hg).readsBack hc (by omega)) haccepts
  have := Encoding.lt_sizeLimit (show 1 ≤ literalSize by decide) hsize
  rwa [Nat.mul_one] at this

theorem ensures_addUnion {alternatives : List (String × LogicalType)}
    (ih : ∀ a ∈ alternatives, KeepsAll a.2) : KeepsAll (.union alternatives) := by
  intro values b hstorable haccepts hafford
  rw [LogicalType.Storable, LogicalType.fieldsStorable_iff] at hstorable
  rw [LogicalType.Affordable, LogicalType.fieldsAffordable_iff] at hafford
  have hmembers : ∀ l ∈ values.map (Literal.members alternatives.length),
      (LogicalType.struct (LogicalType.unionMembers alternatives)).Accepts l := by
    intro l hl
    obtain ⟨row, hrow, rfl⟩ := List.mem_map.1 hl
    exact LogicalType.accepts_members (haccepts row hrow)
  have hfits : ∀ f ∈ (LogicalType.unionMembers alternatives).zipIdx,
      ∀ l ∈ (values.map (Literal.members alternatives.length)).map (Literal.field f.2),
        f.1.2.Accepts l := by
    intro f hf l hl
    obtain ⟨row, hrow, rfl⟩ := List.mem_map.1 hl
    exact LogicalType.accepts_field (hmembers row hrow) hf
  show Ensures (checked (unionRow (.union alternatives) alternatives.length) values >>= fun rows ↦
    addStructs (.union alternatives) values rows
      (addVector LogicalType.tagType :: fieldEncoders alternatives)) b _
  rw [fieldEncoders_eq_map]
  refine (ensures_checked (mapM_unionRow haccepts _)).bind fun rows b₁ _ hrows ↦ ?_
  obtain ⟨rfl, rfl⟩ := hrows
  -- The tags have one level even where there are no alternatives.
  have hfields : ∀ f ∈ (LogicalType.unionMembers alternatives).zipIdx, ∀ b', b₁.Grows b' →
      Ensures (addVector f.1.2
          ((values.map (Literal.members alternatives.length)).map (Literal.field f.2))) b'
        fun child b'' ↦ b''.Keeps (LogicalType.maxDepth alternatives + 1) f.1.2
          ((values.map (Literal.members alternatives.length)).map (Literal.field f.2)) child := by
    intro f hf b' hg
    have haccepted := hfits f hf
    rw [LogicalType.unionMembers, List.zipIdx_cons] at hf
    rcases List.mem_cons.1 hf with rfl | hf
    · have htags : LogicalType.tagType.Affordable b'.booleanWidth b'.listPadding
          ((values.map (Literal.members alternatives.length)).map (Literal.field 0)) := by
        refine And.intro ?_ trivial
        rw [List.length_map, List.length_map]
        exact hafford.1
      exact (ensures_addFixed haccepted htags).imp fun _ _ _ h ↦ h.mono (Nat.le_add_left _ _)
    · have hmem : f.1 ∈ alternatives := List.fst_mem_of_mem_zipIdx hf
      have hmemory := affordable_of_grows hg (hafford.2 f hf)
      refine (ih _ hmem (hstorable _ hmem) haccepted hmemory).imp fun _ _ _ h ↦ h.mono ?_
      exact Nat.succ_le_succ (LogicalType.depth_le_maxDepth hmem)
  refine (ensures_addStructs (bitmapOf_members haccepts).symm hfields).imp fun id b₂ _ hv ↦ ?_
  obtain ⟨v, hv, htype, hvalidity, hchildren⟩ := hv
  refine ⟨⟨v, hv, htype⟩, fun hc hdepth ↦ ?_⟩
  rw [LogicalType.depth] at hdepth
  refine Chunk.readsBack_union (by omega) (hc.vectors id v hv) hvalidity (fun f hf ↦ ?_) haccepts
  obtain ⟨child, hchild, hkeeps⟩ := hchildren f hf
  exact ⟨child, hchild, hkeeps.readsBack hc (by omega)⟩

/-- Literals that fit a type with columns, and that there is memory for, are encoded into a vector
that keeps them. -/
theorem keepsAll (t : LogicalType) : KeepsAll t := by
  induction t using LogicalType.inductionOn with
  | fixed kind =>
    intro values b _ haccepts hafford
    exact (ensures_addFixed haccepts hafford).imp fun _ _ _ h ↦ h.mono (Nat.le_add_left _ _)
  | string kind =>
    intro values b _ haccepts hafford
    exact (ensures_addStrings haccepts hafford).imp fun _ _ _ h ↦ h.mono (Nat.le_add_left _ _)
  | decimal type =>
    intro values b hstorable haccepts hafford
    exact (ensures_addDecimals hstorable haccepts hafford).imp
      fun _ _ _ h ↦ h.mono (Nat.le_add_left _ _)
  | enumeration type =>
    intro values b _ haccepts hafford
    exact (ensures_addEnumeration haccepts hafford).imp fun _ _ _ h ↦ h.mono (Nat.le_add_left _ _)
  | list element ih => exact ensures_addList ih
  | struct fields ih =>
    intro values b hstorable haccepts hafford
    rw [LogicalType.Storable, LogicalType.fieldsStorable_iff] at hstorable
    rw [LogicalType.Affordable, LogicalType.fieldsAffordable_iff] at hafford
    have hlevels : ∀ f ∈ fields, f.2.depth + 1 ≤ LogicalType.maxDepth fields + 1 :=
      fun f hf ↦ Nat.succ_le_succ (LogicalType.depth_le_maxDepth hf)
    refine (ensures_addStruct hlevels (Nat.succ_pos _) ih hstorable haccepts hafford.2).imp ?_
    intro id b' _ h
    rw [LogicalType.depth]
    exact h.mono (by omega)
  | map key value ihKey ihValue => exact ensures_addMap ihKey ihValue
  | array element length ih => exact ensures_addArray ih
  | union alternatives ih => exact ensures_addUnion ih
  | other typeId =>
    intro values b hstorable
    rw [LogicalType.Storable] at hstorable
    exact hstorable.elim

end Encoder

end Columnar
