import Columnar.Proofs.Footprint
import Columnar.Proofs.VectorParts

/-!
# Vectors that two chunks share

`Chunk.AgreeFrom` asks for one heap in both chunks. A chunk that has grown has more payloads, and
what has to be the same then is only what the strings are read as. `Chunk.Shared` says this of the
strings that a vector is opened as: it follows the type down, from the vector to those of its parts
(`LogicalType.partTypes`), and asks for the same vectors, and the same payloads wherever they are
strings. It is enough for the same rows (`Column.related_decodeAt_of_shared`), where equal columns
would be too much, as each column of strings keeps the heap that it was opened with.
-/

namespace Columnar

open Outcome (Related)

namespace Chunk

/-- Vector `id` is in both chunks and, as one of the type, has the same strings in both; and so do the
vectors of its parts. -/
inductive Shared (a b : Chunk) : LogicalType → Nat → Prop where
  | intro {t : LogicalType} {id : Nat} {v : RawVector} (left : a.vectors[id]? = some v)
    (right : b.vectors[id]? = some v)
    (strings : ∀ kind, t = .string kind → ∀ row,
      StringSlot.payload? a.heap ((a.cut id StringSlot.width).bytes row) =
        StringSlot.payload? b.heap ((a.cut id StringSlot.width).bytes row))
    (parts : ∀ (k : Nat) p child, t.partTypes[k]? = some p → v.children[k]? = some child →
      Shared a b p child) : Shared a b t id

namespace Shared

variable {a b : Chunk} {t : LogicalType} {id k child count : Nat}

theorem vectors_eq (h : Shared a b t id) : a.vectors[id]? = b.vectors[id]? := by
  obtain ⟨left, right, -, -⟩ := h
  rw [left, right]

theorem cut_eq (h : Shared a b t id) (width : Nat) : a.cut id width = b.cut id width := by
  rw [cut, cut, h.vectors_eq, validity_congr h.vectors_eq]

theorem payload?_eq {kind : StringKind} (h : Shared a b (.string kind) id) (row : Nat) :
    StringSlot.payload? a.heap ((a.cut id StringSlot.width).bytes row) =
      StringSlot.payload? b.heap ((b.cut id StringSlot.width).bytes row) := by
  rw [← h.cut_eq]
  obtain ⟨-, -, strings, -⟩ := h
  exact strings kind rfl row

theorem of_structChild {p : LogicalType} (h : Shared a b t id) (hp : t.partTypes[k]? = some p)
    (hchild : a.structChild id k = .ok child) : Shared a b p child := by
  obtain ⟨left, -, -, parts⟩ := h
  obtain ⟨v, hv, hchild⟩ := structChild_eq_ok_iff.1 hchild
  obtain rfl := Option.some.inj (left.symm.trans hv)
  exact parts k p child hp hchild

theorem of_listChild {element : LogicalType} (h : Shared a b (.list element) id)
    (hchild : a.listChild id = .ok (child, count)) : Shared a b element child := by
  obtain ⟨v, hv, hchild, -⟩ := listChild_eq_ok_iff.1 hchild
  refine h.of_structChild (k := 0) rfl (structChild_eq_ok_iff.2 ⟨v, hv, ?_⟩)
  rwa [List.head?_eq_getElem?] at hchild

theorem of_arrayChild {element : LogicalType} {length : UInt64}
    (h : Shared a b (.array element length) id) (hchild : a.arrayChild id = .ok child) :
    Shared a b element child := by
  obtain ⟨v, hv, hchild⟩ := arrayChild_eq_ok_iff.1 hchild
  refine h.of_structChild (k := 0) rfl (structChild_eq_ok_iff.2 ⟨v, hv, ?_⟩)
  rwa [List.head?_eq_getElem?] at hchild

/-- A vector of a map is shared as the lists that it is opened as. -/
theorem entries {key value : LogicalType} (h : Shared a b (.map key value) id) :
    Shared a b (.list (.struct (LogicalType.mapEntry key value))) id := by
  obtain ⟨left, right, -, parts⟩ := h
  exact ⟨left, right, by simp, parts⟩

end Shared

end Chunk

namespace Column

open Chunk (Shared bitmap_congr slots_congr validity_congr listChild_congr structChild_congr
  arrayChild_congr)

variable {a b : Chunk} {config : DecodeConfig} {t : LogicalType}

/-- Vectors that the chunks share as vectors of the type are opened alike, with the same rows. -/
def OpensShared (config : DecodeConfig) (a b : Chunk) (t : LogicalType) : Prop :=
  ∀ id, Shared a b t id → ∀ depth count,
    Related (OpenedAlike (fun _ ↦ True) count t) (decodeAt a config depth id count t)
      (decodeAt b config depth id count t)

/-- A type without strings and children is opened without the heap. -/
theorem opensShared_of_eq
    (h : ∀ id, Shared a b t id → ∀ depth count,
      decodeAt a config depth id count t = decodeAt b config depth id count t) :
    OpensShared config a b t := by
  intro id hshared depth count
  refine related_decodeAt (Related.of_eq (h id hshared depth count)) fun _ _ heq ↦ ?_
  subst heq
  exact fun _ _ _ _ _ _ ↦ rfl

theorem opensShared_fixed (hwidth : a.booleanWidth = b.booleanWidth) (kind : FixedKind) :
    OpensShared config a b (.fixed kind) := by
  refine opensShared_of_eq fun id h depth count ↦ ?_
  rw [decodeAt, decodeAt, slotWidth_congr hwidth, slots_congr h.vectors_eq]

theorem opensShared_string (kind : StringKind) : OpensShared config a b (.string kind) := by
  intro id h depth count
  have hslots : Related (fun c d ↦
      c = .whole (.string kind (a.cut id StringSlot.width) a.heap) count ∧
      d = .whole (.string kind (b.cut id StringSlot.width) b.heap) count)
      (decodeAt a config depth id count (.string kind))
      (decodeAt b config depth id count (.string kind)) := by
    rw [decodeAt, decodeAt]
    refine (Related.of_eq rfl).bind fun _ _ _ _ _ ↦ ?_
    refine (Related.of_eq (slots_congr h.vectors_eq)).bind fun v w hv hw _ ↦ .ok ?_
    rw [Chunk.slots_eq_cut hv, Chunk.slots_eq_cut hw]
    exact ⟨rfl, rfl⟩
  refine related_decodeAt hslots fun hc hd hcd ↦ ?_
  obtain ⟨rfl, rfl⟩ := hcd
  refine alike_of_readValid hc hd (fun row _ ↦ ?_) fun _ _ _ _ ↦ ?_
  · exact congrArg (Bitmap.isValid · row) (validity_congr h.vectors_eq)
  · simp only [Layout.readValid, h.payload?_eq]

theorem opensShared_list (h : OpensShared config a b t) : OpensShared config a b (.list t) := by
  intro id hshared depth count
  have hslots : Related (fun v w ↦ v = .whole (a.cut id entryWidth) count ∧
      w = .whole (a.cut id entryWidth) count)
      (a.slots id count entryWidth entryWidth) (b.slots id count entryWidth entryWidth) :=
    (Related.of_eq (slots_congr hshared.vectors_eq)).imp fun v w hv _ heq ↦
      ⟨Chunk.slots_eq_cut hv, heq ▸ Chunk.slots_eq_cut hv⟩
  exact related_decodeList hslots rfl (fun _ _ _ ↦ rfl) (fun _ _ ↦ trivial)
    (listChild_congr hshared.vectors_eq) (fun _ ↦ trivial)
    fun _ _ hchild ↦ h _ (hshared.of_listChild hchild) _ _

theorem opensShared_struct {fields : List (String × LogicalType)}
    (h : ∀ f ∈ fields, OpensShared config a b f.2) : OpensShared config a b (.struct fields) := by
  intro id hshared depth count
  refine related_decodeStruct_of_fields (validity_congr hshared.vectors_eq)
    (fun _ ↦ structChild_congr hshared.vectors_eq) (fun _ _ _ _ ↦ trivial) fun k f child hf hchild ↦ ?_
  have hpart : (LogicalType.struct fields).partTypes[k]? = some f.2 := by
    rw [LogicalType.partTypes, List.getElem?_map, hf, Option.map_some]
  exact h f (List.mem_of_getElem? hf) child (hshared.of_structChild hpart hchild) _ _

theorem opensShared_map {key value : LogicalType}
    (h : OpensShared config a b (.list (.struct (LogicalType.mapEntry key value)))) :
    OpensShared config a b (.map key value) :=
  fun id hshared depth count ↦ related_decodeMap (h id hshared.entries depth count)

theorem opensShared_array {length : UInt64} (h : OpensShared config a b t) :
    OpensShared config a b (.array t length) :=
  fun _ hshared _ _ ↦ related_decodeArray (validity_congr hshared.vectors_eq)
    (arrayChild_congr hshared.vectors_eq) (fun _ ↦ trivial)
    fun _ _ hchild ↦ h _ (hshared.of_arrayChild hchild) _ _

/-- The tags of a union are the same bytes in both chunks, and select the same alternatives. -/
theorem opensShared_union {alternatives : List (String × LogicalType)}
    (htag : OpensShared config a b LogicalType.tagType)
    (h : ∀ f ∈ alternatives, OpensShared config a b f.2) :
    OpensShared config a b (.union alternatives) := by
  intro id hshared depth count
  have hvector := hshared.vectors_eq
  have hmembers : ∀ f ∈ LogicalType.unionMembers alternatives, OpensShared config a b f.2 := by
    intro f hf
    rcases List.mem_cons.1 hf with rfl | hf
    · exact htag
    · exact h f hf
  have hpart : ∀ {k : Nat} {f}, (LogicalType.unionMembers alternatives)[k]? = some f →
      (LogicalType.union alternatives).partTypes[k]? = some f.2 := by
    intro k f hf
    rw [LogicalType.partTypes, List.getElem?_map, hf, Option.map_some]
  have hstructs := related_decodeStruct (fun _ _ ↦ True) depth count
    (validity_congr hvector) (fun _ ↦ structChild_congr hvector) fun k f child hf hchild ↦
      hmembers f (List.mem_of_getElem? hf) child (hshared.of_structChild (hpart hf) hchild) _ _
  have hunions : Related (fun c d ↦ ∃ tags cs ds, cs.length = alternatives.length ∧
        ds.length = alternatives.length ∧
        (∀ (k : Nat) f x y, alternatives[k]? = some f → cs[k]? = some x → ds[k]? = some y →
          FieldAlike a b config (fun _ _ ↦ True) (depth + 1) id count (f, k + 1) x y) ∧
        c = .whole (.union (a.validity id) (.whole (a.cut tags 1) count)
          ((alternatives.map (·.1)).zip cs)) count ∧
        d = .whole (.union (b.validity id) (.whole (a.cut tags 1) count)
          ((alternatives.map (·.1)).zip ds)) count)
      (decodeAt a config depth id count (.union alternatives))
      (decodeAt b config depth id count (.union alternatives)) := by
    rw [decodeAt_union, decodeAt_union]
    refine hstructs.bind fun _ _ hs hs' hss ↦ ?_
    obtain ⟨xs, ys, hfields, hxs, hys, rfl, rfl⟩ := hss
    obtain ⟨tags, cs, rfl, hcs, hmake⟩ := ofMembers_of_decodeStruct hxs hs
    obtain ⟨tags', ds, rfl, hds, hmake'⟩ := ofMembers_of_decodeStruct hys hs'
    obtain ⟨child, hchild, htags, htags', -⟩ := hfields.at (k := 0) rfl rfl rfl
    obtain rfl := eq_cut_of_decodeTags htags
    obtain rfl := eq_cut_of_decodeTags htags'
    rw [hmake, hmake', ← (hshared.of_structChild (hpart (k := 0) rfl) hchild).cut_eq]
    exact .ok ⟨child, cs, ds, hcs, hds, fun k f x y hf hx hy ↦ hfields.at hf hx hy, rfl, rfl⟩
  refine related_decodeAt hunions fun hc hd hcd ↦ ?_
  obtain ⟨tags, cs, ds, hcs, hds, hfields, rfl, rfl⟩ := hcd
  refine alike_union hc hd hcs hds (validity_congr hvector) rfl (fun _ _ _ _ ↦ rfl) ?_
  exact fun k f x y hf hx hy start len i hle hi _ _ _ _ ↦
    (hfields k f x y hf hx hy).get_eq hle hi trivial

/-- Vectors that two chunks share have the same rows in both, if booleans are equally wide. The
induction is on the type. -/
theorem related_decodeAt_of_shared (hwidth : a.booleanWidth = b.booleanWidth) (t : LogicalType) :
    OpensShared config a b t := by
  induction t using LogicalType.inductionOn with
  | fixed kind => exact opensShared_fixed hwidth kind
  | string kind => exact opensShared_string kind
  | decimal type =>
    refine opensShared_of_eq fun id h depth count ↦ ?_
    simp only [decodeAt, decodeDecimal, slots_congr h.vectors_eq]
  | enumeration type =>
    refine opensShared_of_eq fun id h depth count ↦ ?_
    rw [decodeAt, decodeAt, slots_congr h.vectors_eq]
  | list element ih => exact opensShared_list ih
  | struct fields ih => exact opensShared_struct ih
  | map key value ihKey ihValue =>
    refine opensShared_map (opensShared_list (opensShared_struct fun f hf ↦ ?_))
    rcases List.mem_pair.1 hf with rfl | rfl
    · exact ihKey
    · exact ihValue
  | array element length ih => exact opensShared_array ih
  | union alternatives ih => exact opensShared_union (opensShared_fixed hwidth _) ih
  | other id => exact opensShared_of_eq fun _ _ _ _ ↦ rfl

end Column

end Columnar
