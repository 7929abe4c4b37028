import Columnar.Proofs.Arena
import Columnar.Proofs.SharedVectors

/-!
# Columns of a builder that grows

A column that was encoded has the same rows ever after, whatever is added to the builder, and however
far that comes before it fails (`Encoder.related_column_of_encoded`). Its vectors are still there
(`Builder.Precedes`), so what could change is where its strings are found, as a heap is searched for
them.

Slots are settled (`StringSlot.Settled`) if no payload that is added can change what they are read as.
All slots that are written are so: those that hold their string need no payload, those that point to
one have it on the heap, where it is found before what is added, and those that point nowhere record
the address zero, which no allocator gives. `Chunk.Settled` says this of all strings of a vector, and
`settled_addVector` that it holds of whatever is encoded.
-/

namespace Columnar

open LittleEndian Outcome

/-! ### Heaps that grow -/

namespace Heap

variable {heap heap' : Heap} {pointer length : Nat}

theorem read?_of_isPrefix (h : heap.toList <+: heap'.toList) {bytes : List UInt8}
    (hread : heap.read? pointer length = some bytes) : heap'.read? pointer length = some bytes := by
  obtain ⟨before, p, after, hsplit, hp, hbefore⟩ := read?_eq_some_iff.1 hread
  obtain ⟨new, hnew⟩ := h
  exact read?_eq_some_iff.2 ⟨before, p, after ++ new,
    by rw [← hnew, hsplit, List.append_assoc, List.cons_append], hp, hbefore⟩

theorem Addressable.of_isPrefix (h : heap.toList <+: heap'.toList) (haddress : heap'.Addressable) :
    heap.Addressable :=
  fun p hp ↦ haddress p (Array.mem_def.2 (h.subset (Array.mem_def.1 hp)))

end Heap

namespace StringSlot

/-- The slot is read the same when payloads are added that lie at other addresses than zero: it holds
its string, or records the address zero, or points to a payload that is there. -/
def Settled (heap : Heap) (slot : List UInt8) : Prop :=
  isInline slot = true ∨ pointer slot = 0 ∨ (heap.read? (pointer slot) (length slot)).isSome = true

namespace Settled

variable {heap heap' : Heap} {slot : List UInt8}

theorem mono (h : Settled heap slot) (hheap : heap.toList <+: heap'.toList) : Settled heap' slot := by
  refine h.imp_right (Or.imp_right fun hsome ↦ ?_)
  obtain ⟨bytes, hread⟩ := Option.isSome_iff_exists.1 hsome
  exact Option.isSome_iff_exists.2 ⟨bytes, Heap.read?_of_isPrefix hheap hread⟩

theorem payload?_eq (h : Settled heap slot) (hheap : heap.toList <+: heap'.toList)
    (hpos : ∀ p ∈ heap', p ∈ heap ∨ 0 < p.address) : payload? heap slot = payload? heap' slot := by
  rw [payload?, payload?]
  split
  · rfl
  next hlong =>
    cases hread : heap.read? (pointer slot) (length slot) with
    | some bytes => exact (Heap.read?_of_isPrefix hheap hread).symm
    | none =>
      rcases h with hinline | hzero | hsome
      · exact absurd hinline hlong
      · refine (Heap.read?_eq_none_iff.2 fun p hp hcovers ↦ ?_).symm
        rcases hpos p hp with hp | hpos
        · exact Heap.read?_eq_none_iff.1 hread p hp hcovers
        · have hle := hcovers.1
          omega
      · rw [hread] at hsome
        cases hsome

theorem of_length_le (h : length slot ≤ inlineLength) : Settled heap slot := .inl (decide_eq_true h)

theorem nil : Settled heap [] := .of_length_le (Nat.zero_le _)

theorem zeros : Settled heap (List.replicate width 0) := .of_length_le (by decide)

theorem dangling (n : Nat) : Settled heap (dangling n) := by
  refine .inr (.inl ?_)
  have hlen : (ofNat 4 n ++ List.replicate 4 0).length = 8 := by simp
  rw [pointer, StringSlot.dangling, show List.replicate 12 (0 : UInt8) =
    List.replicate 4 0 ++ List.replicate 8 0 from rfl, ← List.append_assoc, List.drop_left' hlen]
  rfl

theorem ofInline {bytes : List UInt8} (h : bytes.length ≤ inlineLength) :
    Settled heap (ofInline bytes) := by
  refine .of_length_le ?_
  rw [StringSlot.ofInline, List.append_assoc, length_append (Nat.lt_of_le_of_lt h (by decide))]
  exact h

/-- A string that is longer than its slot can record is cut, and the rest of it is on the heap all the
same. -/
theorem ofPointer {bytes : List UInt8} {address : Nat} (h : inlineLength < bytes.length)
    (hmem : Payload.mk address bytes.toArray ∈ heap) (haddress : heap.Addressable) :
    Settled heap (ofPointer bytes address) := by
  have hend : address + bytes.length ≤ UInt64.size := haddress _ hmem
  have hpointer : pointer (StringSlot.ofPointer bytes address) = address :=
    pointer_ofPointer h (by omega)
  have hlength : length (StringSlot.ofPointer bytes address) ≤ bytes.length := by
    rw [length, StringSlot.ofPointer, List.append_assoc, List.take_left' (length_ofNat _ _),
      toNat_ofNat]
    exact Nat.mod_le _ _
  refine .inr (.inr ?_)
  rw [hpointer, ← Option.ne_none_iff_isSome, Ne, Heap.read?_eq_none_iff]
  exact fun hnone ↦ hnone _ hmem ⟨Nat.le_refl _, Nat.add_le_add_left hlength _⟩

end Settled

end StringSlot

/-! ### Settled vectors -/

namespace Chunk

/-- The vector has the type, and it and the vectors of its parts have no slots but settled ones where
they are strings. -/
inductive Settled (c : Chunk) : LogicalType → Nat → Prop where
  | intro {t : LogicalType} {id : Nat} {v : RawVector} (vector : c.vectors[id]? = some v)
    (type_eq : v.type = t)
    (strings : ∀ kind, t = .string kind → ∀ row,
      StringSlot.Settled c.heap ((c.cut id StringSlot.width).bytes row))
    (parts : ∀ (k : Nat) p child, t.partTypes[k]? = some p → v.children[k]? = some child →
      Settled c p child) : Settled c t id

end Chunk

namespace Builder

open Chunk (Shared Settled)

variable {b b' : Builder} {t : LogicalType} {id : Nat}

theorem Precedes.cut_eq (h : b.Precedes b') {v : RawVector} (hv : b.vectors[id]? = some v)
    (width : Nat) : b.toChunk.cut id width = b'.toChunk.cut id width := by
  have hvectors : b.vectors[id]? = b'.vectors[id]? := hv.trans (h.getElem? hv).symm
  simp only [Chunk.cut, Chunk.validity, toChunk, hvectors]

theorem Precedes.settled (h : b.Precedes b') (hsettled : b.toChunk.Settled t id) :
    b'.toChunk.Settled t id := by
  induction hsettled with
  | intro vector type_eq strings _ ih =>
    refine .intro (h.getElem? vector) type_eq (fun kind hkind row ↦ ?_) ih
    rw [← h.cut_eq vector]
    exact (strings kind hkind row).mono h.heap

/-- A settled vector is shared with all that the builder becomes. -/
theorem Precedes.shared (h : b.Precedes b') (hpos : ∀ p ∈ b'.heap, p ∈ b.heap ∨ 0 < p.address)
    (hsettled : b.toChunk.Settled t id) : Shared b.toChunk b'.toChunk t id := by
  induction hsettled with
  | intro vector _ strings _ ih =>
    refine .intro vector (h.getElem? vector) (fun kind hkind row ↦ ?_) ih
    exact (strings kind hkind row).payload?_eq h.heap hpos

/-- If payloads are put behind the last one, and the first one that is added is not put at the address
zero, then none of them is. -/
theorem Precedes.pos_of_behindLast (h : b.Precedes b') (hplace : b.place = Heap.behindLast)
    (hpos : 0 < b.addressIn b.heap 0) : ∀ p ∈ b'.heap, p ∈ b.heap ∨ 0 < p.address := by
  have hplaced := h.placed
  rw [addressIn, hplace] at hplaced hpos
  exact fun p hp ↦ ((hplaced.behind 0).2 p hp).imp_right (Nat.lt_of_lt_of_le hpos)

end Builder

namespace Encoder

open Builder (AddsPayloads Precedes)

variable {b : Builder}

/-- The slots are whole, and settled if the payloads have addresses of 64 bits. -/
def SlotsSettled (slots : List (List UInt8)) (b : Builder) : Prop :=
  ∀ slot ∈ slots, slot.length = StringSlot.width ∧
    (b.heap.Addressable → StringSlot.Settled b.heap slot)

theorem SlotsSettled.mono {slots : List (List UInt8)} {b' : Builder} (h : SlotsSettled slots b)
    (hheap : b.heap.toList <+: b'.heap.toList) : SlotsSettled slots b' := fun slot hslot ↦
  ⟨(h slot hslot).1, fun haddress ↦ ((h slot hslot).2 (haddress.of_isPrefix hheap)).mono hheap⟩

theorem SlotsSettled.bytes {slots : List (List UInt8)} (h : SlotsSettled slots b)
    (haddress : b.heap.Addressable) (words : Bitmap) (row : Nat) : StringSlot.Settled b.heap
      (Slots.bytes ⟨slots.flatten.toArray, StringSlot.width, words⟩ row) := by
  have hlen := fun slot hslot ↦ (h slot hslot).1
  cases hrow : slots[row]? with
  | some slot =>
    rw [Slots.bytes_flatten words hlen hrow]
    exact (h slot (List.mem_of_getElem? hrow)).2 haddress
  | none =>
    have hle : slots.length ≤ row := List.getElem?_eq_none_iff.1 hrow
    have hsize : slots.flatten.toArray.size ≤ row * StringSlot.width := by
      rw [List.size_toArray, length_flatten_of_length_eq hlen]
      exact Nat.mul_le_mul_right _ hle
    rw [Slots.bytes_eq_nil hsize]
    exact .nil

theorem settled_stringSlot (kind : StringKind) (l : Literal) :
    Yields (stringSlot kind l) b fun slot b' ↦ slot.length = StringSlot.width ∧
      (b'.heap.Addressable → StringSlot.Settled b'.heap slot) := by
  unfold stringSlot
  split
  · exact yields_pure ⟨List.length_replicate, fun _ ↦ .zeros⟩
  next n =>
    split
    · exact yields_pure ⟨by simp [StringSlot.dangling, StringSlot.width], fun _ ↦ .dangling n⟩
    · exact yields_throw _
  · refine Yields.bind fun bytes b₁ _ ↦ ?_
    beta_reduce
    split
    next hle => exact yields_pure ⟨StringSlot.length_ofInline hle, fun _ ↦ .ofInline hle⟩
    next hlong =>
      have hlong : StringSlot.inlineLength < bytes.length := Nat.lt_of_not_le hlong
      refine Yields.bind fun address b₂ hrun ↦ yields_pure ⟨StringSlot.length_ofPointer hlong _, ?_⟩
      obtain ⟨haddress, rfl⟩ := Prod.mk.inj hrun
      obtain rfl := Except.ok.inj haddress
      exact .ofPointer hlong (Array.mem_push_self ..)

/-- The bytes that a vector of strings is given are settled slots. -/
theorem settled_ownData (b₀ : Builder) (kind : StringKind) (values : List Literal) :
    Yields (ownData b₀ (.string kind) values) b fun data b' ↦ b'.heap.Addressable →
      ∀ words row, StringSlot.Settled b'.heap (Slots.bytes ⟨data, StringSlot.width, words⟩ row) := by
  refine Yields.bind fun slots b₁ hrun ↦ yields_pure fun haddress ↦ ?_
  have hall : Yields (values.mapM (stringSlot kind)) b fun slots b' ↦ SlotsSettled slots b' := by
    refine yields_mapM (I := fun _ slots b' ↦ SlotsSettled slots b') [] [] ?_ ?_
    · intro _ l _ slots b' hslots slot b'' hslot
      have hgrows := (addsPayloads_stringSlot kind l).of_run hslot
      have hold := hslots.mono hgrows.placed.isPrefix
      refine List.forall_mem_append.2 ⟨hold, List.forall_mem_singleton.2 ?_⟩
      exact settled_stringSlot kind l slot b'' hslot
    · exact fun _ h ↦ absurd h List.not_mem_nil
  exact (hall slots b₁ hrun).bytes haddress

/-- What is known of the parts of a vector that is being encoded, once its bytes are. -/
structure PartsSettled (t : LogicalType) (data : Array UInt8) (parts : List LogicalType)
    (ids : List Nat) (b : Builder) : Prop where
  strings : ∀ kind, t = .string kind → ∀ words row,
    StringSlot.Settled b.heap (Slots.bytes ⟨data, StringSlot.width, words⟩ row)
  parts : List.Forall₂ b.toChunk.Settled parts ids

theorem PartsSettled.mono {t : LogicalType} {data : Array UInt8} {parts : List LogicalType}
    {ids : List Nat} {b' : Builder} (h : PartsSettled t data parts ids b) (hb : b.Precedes b') :
    PartsSettled t data parts ids b' :=
  ⟨fun kind hkind words row ↦ (h.strings kind hkind words row).mono hb.heap,
    h.parts.imp fun _ _ ↦ hb.settled⟩

/-- A vector is settled when it is added behind its parts. -/
theorem PartsSettled.push {t : LogicalType} {values : List Literal} {data : Array UInt8}
    {ids : List Nat} {b₀ : Builder} (h : PartsSettled t data t.partTypes ids b) :
    Chunk.Settled (Builder.toChunk { b with vectors := b.vectors.push (vectorOf b₀ t values data ids) })
      t b.vectors.size := by
  have hb : b.Precedes { b with vectors := b.vectors.push (vectorOf b₀ t values data ids) } :=
    (addsVectors_push _ b).toPrecedes
  have hvector : (b.vectors.push (vectorOf b₀ t values data ids))[b.vectors.size]? =
      some (vectorOf b₀ t values data ids) := Array.getElem?_push_size
  refine .intro hvector rfl (fun kind hkind row ↦ ?_) fun k p child hp hchild ↦ ?_
  · have hcut : Chunk.cut (Builder.toChunk
        { b with vectors := b.vectors.push (vectorOf b₀ t values data ids) }) b.vectors.size
          StringSlot.width = ⟨data, StringSlot.width, bitmapOf values⟩ := by
      simp only [Chunk.cut, Chunk.validity, Builder.toChunk, hvector]
      rfl
    rw [hcut]
    exact h.strings kind hkind _ row
  · obtain ⟨-, hget⟩ := List.forall₂_iff_get.1 (h.mono hb).parts
    obtain ⟨hk, rfl⟩ := List.getElem?_eq_some_iff.1 hp
    obtain ⟨hk', rfl⟩ := List.getElem?_eq_some_iff.1 hchild
    exact hget k hk hk'

/-- Whatever is encoded is settled, if its payloads have addresses of 64 bits. The induction is on the
type. -/
theorem settled_addVector (t : LogicalType) (values : List Literal) :
    Yields (addVector t values) b fun id b' ↦ b'.heap.Addressable → b'.toChunk.Settled t id := by
  induction t using LogicalType.inductionOnParts generalizing values b with
  | step t ih =>
    refine yields_addVector (I := fun data done ids b' ↦ b'.heap.Addressable →
      PartsSettled t data (done.map (·.1)) ids b') ?_ ?_ ?_
    · intro data b₁ hdata haddress
      refine ⟨fun kind hkind ↦ ?_, .nil⟩
      subst hkind
      exact settled_ownData b kind values data b₁ hdata haddress
    · intro data done part hpart ids b' hids id b'' hrun haddress
      have hb := (precedes_addVector part.1 part.2).of_run hrun
      have hold := (hids (haddress.of_isPrefix hb.heap)).mono hb
      have hnew := ih _ (LogicalType.fst_mem_partTypes hpart) part.2 id b'' hrun haddress
      refine ⟨hold.strings, ?_⟩
      rw [List.map_append]
      exact List.rel_append hold.parts (.cons hnew .nil)
    · intro data ids b' hids haddress
      have hparts := hids haddress
      rw [LogicalType.partsOf_map_fst] at hparts
      exact hparts.push

end Encoder

/-! ### Columns -/

namespace Builder

/-- Column `index` was encoded, and the builder has only grown since. -/
def Encoded (b : Builder) (index : Nat) : Prop :=
  ∃ (a b₁ : Builder) (t : LogicalType) (values : List Literal),
    (Encoder.addColumn t values).run a = (.ok (), b₁) ∧ b₁.columns.length = index + 1 ∧ b₁.Precedes b

end Builder

namespace Encoder

open Builder (AddsVectors)
open Column (SameRows)

variable {b b' : Builder} {index : Nat}

/-- The last column is settled when it has been encoded. -/
theorem settled_addColumn (t : LogicalType) (values : List Literal) :
    Yields (addColumn t values) b fun _ b' ↦ ∃ id, b'.columns.getLast? = some id ∧
      (b'.heap.Addressable → b'.toChunk.Settled t id) := by
  refine Yields.bind fun _ b₁ _ ↦ Yields.bind fun id b₂ hadd ↦ ?_
  intro _ b₃ hrun
  obtain ⟨-, rfl⟩ := Prod.mk.inj hrun
  refine ⟨id, List.getLast?_concat, fun haddress ↦ ?_⟩
  have hsettled := settled_addVector t values id b₂ (run_adapt_eq_ok_iff.1 hadd) haddress
  exact (precedes_appendColumn id b₂).settled hsettled

theorem exists_settled_of_encoded (h : b.Encoded index) (haddress : b.heap.Addressable) :
    ∃ t id, b.columns[index]? = some id ∧ b.toChunk.Settled t id := by
  obtain ⟨a, b₁, t, values, hrun, hindex, hb⟩ := h
  obtain ⟨id, hid, hsettled⟩ := settled_addColumn t values () b₁ hrun
  obtain ⟨later, hcolumns⟩ := hb.columns
  refine ⟨t, id, ?_, hb.settled (hsettled (haddress.of_isPrefix hb.heap))⟩
  rw [List.getLast?_eq_getElem?, hindex] at hid
  rw [← hcolumns, List.getElem?_append_left (by omega)]
  exact hid

/-- A column that was encoded is opened as before when vectors have been added, with the same rows, or
refused as before. -/
theorem related_column_of_encoded [Uuid.Library] (h : b.Encoded index) (haddress : b.heap.Addressable)
    (hb : b.AddsVectors b') (hpos : ∀ p ∈ b'.heap, p ∈ b.heap ∨ 0 < p.address)
    (config : DecodeConfig) :
    Related SameRows ((View.mk b.toChunk config).column index)
      ((View.mk b'.toChunk config).column index) := by
  obtain ⟨t, id, hid, hsettled⟩ := exists_settled_of_encoded h haddress
  have hcolumn : ∀ {c : Builder}, c.columns[index]? = some id → c.toChunk.Settled t id →
      (View.mk c.toChunk config).column index =
        Column.decodeAt c.toChunk config 1 id (c.rowCount?.getD 0) t := by
    intro c hid hsettled
    obtain ⟨vector, rfl, -, -⟩ := hsettled
    have hlt : index < c.toChunk.columns.length := (List.getElem?_eq_some_iff.1 hid).1
    have hget : c.toChunk.column index = .ok id := by
      rw [Chunk.column, show c.toChunk.columns[index]? = some id from hid]
    rw [View.column, View.columnVector, View.columnCount,
      Outcome.require_eq_ok_iff.2 (decide_eq_true hlt), ok_bind, hget, ok_bind, Column.decodeReported,
      Chunk.logicalType, Chunk.vector_eq_ok_iff.2 vector]
    rfl
  rw [hcolumn hid hsettled, hcolumn (hb.columns_eq ▸ hid) (hb.toPrecedes.settled hsettled),
    hb.rowCount_eq]
  have hopens : Column.OpensShared config b.toChunk b'.toChunk t :=
    Column.related_decodeAt_of_shared hb.booleanWidth_eq.symm t
  have hopened := hopens id (hb.toPrecedes.shared hpos hsettled) 1 (b.rowCount?.getD 0)
  exact hopened.imp fun _ _ _ _ hcd ↦ hcd.sameRows fun _ ↦ trivial

/-- Encoding a vector only adds to a builder. Whether it succeeds or fails midway, the vectors,
columns and payloads that were there stay in their places, and no column is added. If it succeeds, the
vectors it has added are a tree, with the one that was asked for as the root. And each column that was
encoded before has the same rows after, wherever the allocator puts payloads, as long as these are
addresses of 64 bits other than zero. -/
theorem addVector_addsTree [Uuid.Library] (b : Builder) (t : LogicalType) (values : List Literal) :
    let result := (addVector t values).run b
    b.AddsVectors result.2 ∧ (∀ id, result.1 = .ok id → result.2.IsTree b.vectors.size id) ∧
      ∀ config index, b.Encoded index → b.heap.Addressable →
        (∀ p ∈ result.2.heap, p ∈ b.heap ∨ 0 < p.address) →
        Related SameRows ((View.mk b.toChunk config).column index)
          ((View.mk result.2.toChunk config).column index) := by
  intro result
  have hb : b.AddsVectors result.2 := addsVectors_addVector t values b
  refine ⟨hb, fun id hid ↦ ?_, fun config index hencoded haddress hpos ↦ ?_⟩
  · exact isTree_addVector t values b id result.2 (Prod.ext hid rfl)
  · exact related_column_of_encoded hencoded haddress hb hpos config

/-- Strings of which one is on the heap and one is nowhere. -/
abbrev longAndLost : List Literal := [.blob (List.replicate 13 7), .dangling 13, .null]

/-- The column of the strings above. -/
def stringsAlone : Builder := ((addColumn (.string .blob) longAndLost).run default).2

/-- A column of numbers beside that of the strings. -/
def stringsAndNumbers : Builder :=
  ((addColumn LogicalType.tagType [.integer .uTinyInt 1, .null, .integer .uTinyInt 2]).run stringsAlone).2

/-- Lists of strings beside a type that nothing encodes. -/
abbrev listsBesideAny : LogicalType := .struct [("list", .list (.string .blob)), ("any", .other .any)]

/-- The strings are read as before when the lists have been added, of which the second field then
fails, and when the lists have been added alone. -/
theorem stringsAndNumbers_sameRows :
    let b := stringsAndNumbers
    let failed := (addVector listsBesideAny [.struct [.list longAndLost, .null]]).run b
    let added := (addVector (.list (.string .blob)) [.list longAndLost]).run b
    (b.Encoded 0 ∧ b.heap.Addressable ∧ ∀ p ∈ failed.2.heap, p ∈ b.heap ∨ 0 < p.address) ∧
      (failed.1 = .error (.error (.noEncoder .any)) ∧ failed.2.vectors.size = b.vectors.size + 2) ∧
      Related SameRows ((View.mk b.toChunk {}).column 0) ((View.mk failed.2.toChunk {}).column 0) ∧
      ((View.mk failed.2.toChunk {}).column 0).toOption.map (·.len) = some 3 ∧
      added.1 = .ok 3 ∧ added.2.IsTree b.vectors.size 3 := by
  intro b failed added
  have hencoded : b.Encoded 0 :=
    ⟨default, stringsAlone, .string .blob, longAndLost, rfl, rfl, precedes_addColumn _ _ stringsAlone⟩
  have haddress : b.heap.Addressable := by
    show ∀ p ∈ stringsAndNumbers.heap, p.address + p.bytes.size ≤ UInt64.size
    decide
  have hfailed := addVector_addsTree b listsBesideAny
    [.struct [.list longAndLost, .null]]
  have hpos : ∀ p ∈ failed.2.heap, p ∈ b.heap ∨ 0 < p.address :=
    hfailed.1.toPrecedes.pos_of_behindLast rfl (by decide)
  have hadded := addVector_addsTree b (.list (.string .blob)) [.list longAndLost]
  exact ⟨⟨hencoded, haddress, hpos⟩, ⟨rfl, rfl⟩, hfailed.2.2 {} 0 hencoded haddress hpos,
    by decide +kernel, rfl, hadded.2.1 3 rfl⟩

end Encoder

end Columnar
