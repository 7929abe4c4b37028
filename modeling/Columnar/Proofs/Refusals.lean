import Mathlib.Logic.Relation
import Columnar.Proofs.DeadSlots

/-!
# Why vectors are refused

Opening a vector opens the vectors inside it. Each of them is a `Request`, and `Chunk.LeadsTo` says
which requests one request makes; a map is opened as its list and a union as its struct, so these
lead to a request for the same vector. `Chunk.Refuses` lists all causes for which a request is
refused by itself, with what is wrong about the chunk or the type in each case.

If opening fails, then one of the requests that it led to was refused by itself
(`Column.failsOnly_decodeAt`). So what can be said about a failure follows from two things, how
requests lead to each other and what a single one is refused for, and no later proof has to go
through the decoder again. The checks that are made when columns are put together (their types,
their lengths, their number) are no causes: what was opened always passes them.
-/

namespace Columnar

/-- What a chunk is asked for when a vector is opened: `count` rows of the vector `id` as a column
of type `type`, at nesting level `level`. -/
structure Request where
  level : Nat
  id : Nat
  count : Nat
  type : LogicalType

namespace Chunk

/-- The requests that a request makes for the vectors inside. -/
inductive LeadsTo (chunk : Chunk) : Request → Request → Prop where
  | element {level id count child childCount : Nat} {t : LogicalType}
    (h : chunk.listChild id = .ok (child, childCount)) :
    LeadsTo chunk ⟨level, id, count, .list t⟩ ⟨level + 1, child, childCount, t⟩
  | field {level id count k child : Nat} {fields : List (String × LogicalType)}
    {f : String × LogicalType} (hf : fields[k]? = some f) (h : chunk.structChild id k = .ok child) :
    LeadsTo chunk ⟨level, id, count, .struct fields⟩ ⟨level + 1, child, count, f.2⟩
  | entries {level id count : Nat} {key value : LogicalType} :
    LeadsTo chunk ⟨level, id, count, .map key value⟩
      ⟨level, id, count, .list (.struct (LogicalType.mapEntry key value))⟩
  | item {level id count child : Nat} {t : LogicalType} {length : UInt64}
    (h : chunk.arrayChild id = .ok child) :
    LeadsTo chunk ⟨level, id, count, .array t length⟩ ⟨level + 1, child, count * length.toNat, t⟩
  | members {level id count : Nat} {alternatives : List (String × LogicalType)} :
    LeadsTo chunk ⟨level, id, count, .union alternatives⟩
      ⟨level, id, count, .struct (LogicalType.unionMembers alternatives)⟩

/-- The causes for which a request is refused by itself. -/
inductive Refuses (chunk : Chunk) (config : DecodeConfig) (r : Request) : DecodeError → Prop where
  | level (h : config.maxNestingDepth < r.level) :
    Refuses chunk config r (.nestingTooDeep config.maxNestingDepth)
  | unsupported {typeId : TypeId} (h : r.type = .other typeId) :
    Refuses chunk config r (.unsupportedType typeId.name)
  | decimalScale {t : DecimalType} (h : r.type = .decimal t) (hscale : ¬ t.scale ≤ t.width) :
    Refuses chunk config r (.data .decimalScale)
  | decimalWidth {t : DecimalType} (h : r.type = .decimal t) (hwidth : t.physicalWidth? = none) :
    Refuses chunk config r (.invalidDecimalWidth t.width.toNat)
  | slotWidth {kind : FixedKind} (h : r.type = .fixed kind)
    (hwidth : Column.slotWidth chunk kind < kind.width) :
    Refuses chunk config r (.argument .slotWidth)
  | byteLength {width : Nat} (h : chunk.slotWidth? r.type = some width)
    (hsize : sizeLimit ≤ r.count * width) :
    Refuses chunk config r (.invalidArgument "item_count" "byte length overflows usize")
  | childCount {t : LogicalType} {length : UInt64} (h : r.type = .array t length)
    (hsize : sizeLimit ≤ r.count * length.toNat) :
    Refuses chunk config r (.invalidArgument "item_count" "array child count overflows usize")
  | vector (h : chunk.vectors[r.id]? = none) :
    Refuses chunk config r (.invalidArgument "vector" s!"no vector {r.id}")
  | data {width : Nat} {v : RawVector} (h : chunk.slotWidth? r.type = some width)
    (hv : chunk.vectors[r.id]? = some v) (hsize : v.data.size < r.count * width) :
    Refuses chunk config r (.missing "vector data")
  | shortRead {width : Nat} {v : RawVector} (h : chunk.slotWidth? r.type = some width)
    (hv : chunk.vectors[r.id]? = some v) (hsize : v.data.size < r.count * width)
    (hshort : v.shortReads = true) : Refuses chunk config r (.data .bufferLength)
  | bitmap (h : (chunk.validity r.id).covers r.count = false) :
    Refuses chunk config r (.data .bitmapLength)
  | listChild {v : RawVector} (hv : chunk.vectors[r.id]? = some v) (h : v.children = []) :
    Refuses chunk config r (.missing "list child")
  | structChild {v : RawVector} {k : Nat} (hv : chunk.vectors[r.id]? = some v)
    (h : v.children[k]? = none) : Refuses chunk config r (.missing "struct child")
  | arrayChild {v : RawVector} (hv : chunk.vectors[r.id]? = some v) (h : v.children = []) :
    Refuses chunk config r (.missing "array child")
  | listEntry (h : config.eagerListValidation = true) : Refuses chunk config r (.data .listEntry)

/-- The failure is the cause for which a request that `r` leads to, in any number of steps, is
refused by itself. -/
def RefusedWithin (chunk : Chunk) (config : DecodeConfig) (r : Request) (failure : Failure) :
    Prop :=
  ∃ s cause, Relation.ReflTransGen chunk.LeadsTo r s ∧ chunk.Refuses config s cause ∧
    failure = .error cause

variable {chunk : Chunk} {config : DecodeConfig} {r s : Request} {cause : DecodeError}

theorem Refuses.within (h : chunk.Refuses config r cause) :
    chunk.RefusedWithin config r (.error cause) :=
  ⟨r, cause, .refl, h, rfl⟩

/-- What a request is refused for, it is refused for within any request that leads to it. -/
theorem RefusedWithin.head {failure : Failure} (hrs : chunk.LeadsTo r s)
    (h : chunk.RefusedWithin config s failure) : chunk.RefusedWithin config r failure := by
  obtain ⟨q, cause, hsq, hcause, rfl⟩ := h
  exact ⟨q, cause, hsq.head hrs, hcause, rfl⟩

/-! ### Parts of a vector -/

open Outcome (FailsOnly failsOnly_ok failsOnly_refuse_iff failsOnly_bind_iff)

theorem failsOnly_require_of {condition : Bool}
    (h : condition = false → chunk.Refuses config r cause) :
    FailsOnly (chunk.RefusedWithin config r) (Outcome.require condition cause) := by
  cases condition with
  | true => exact failsOnly_ok ()
  | false => exact failsOnly_refuse_iff.2 (h rfl).within

theorem failsOnly_vector : FailsOnly (chunk.RefusedWithin config r) (chunk.vector r.id) := by
  rw [vector]
  split
  · exact failsOnly_ok _
  next h => exact failsOnly_refuse_iff.2 (Refuses.vector h).within

theorem failsOnly_bitmap :
    FailsOnly (chunk.RefusedWithin config r) (chunk.bitmap r.id r.count) :=
  (failsOnly_require_of Refuses.bitmap).bind fun _ _ ↦ failsOnly_ok _

theorem failsOnly_buffer {width : Nat} (hwidth : chunk.slotWidth? r.type = some width) :
    FailsOnly (chunk.RefusedWithin config r) (chunk.buffer r.id r.count width) := by
  refine (failsOnly_require_of fun h ↦ ?_).bind fun _ _ ↦ ?_
  · exact .byteLength hwidth (Nat.not_lt.1 (of_decide_eq_false h))
  refine FailsOnly.bind ?_ fun data hdata ↦ ?_
  · refine failsOnly_vector.bind fun v hv ↦ (failsOnly_require_of fun h ↦ ?_).bind fun _ _ ↦
      failsOnly_ok _
    have hsize := not_or.1 (of_decide_eq_false h)
    exact .data hwidth (vector_eq_ok_iff.1 hv) (Nat.not_le.1 hsize.1)
  · refine (failsOnly_require_of fun h ↦ ?_).bind fun _ _ ↦ failsOnly_ok _
    obtain ⟨v, hv, hread, rfl⟩ := data_eq_ok_iff.1 hdata
    have hsize := of_decide_eq_false h
    exact .shortRead hwidth hv (Nat.not_le.1 hsize) (hread.resolve_left hsize)

/-- Slots are cut from a buffer that was found to be long enough. -/
theorem failsOnly_slots {width valueWidth : Nat} (hwidth : chunk.slotWidth? r.type = some width)
    (hvalue : width < valueWidth → chunk.Refuses config r (.argument .slotWidth)) :
    FailsOnly (chunk.RefusedWithin config r) (chunk.slots r.id r.count width valueWidth) := by
  refine (failsOnly_require_of fun h ↦ ?_).bind fun _ hle ↦ ?_
  · exact hvalue (Nat.not_le.1 (of_decide_eq_false h))
  refine (failsOnly_buffer hwidth).bind fun data hdata ↦ failsOnly_bitmap.bind fun words _ ↦ ?_
  obtain ⟨-, v, -, hsize, rfl⟩ := buffer_eq_ok_iff.1 hdata
  have hle : valueWidth ≤ width := of_decide_eq_true (Outcome.require_eq_ok.1 hle)
  rw [Slots.ofBuffer, Outcome.assert_eq_ok_iff.2 (decide_eq_true hle),
    Outcome.assert_eq_ok_iff.2 (decide_eq_true hsize)]
  exact failsOnly_ok _

theorem failsOnly_listChild : FailsOnly (chunk.RefusedWithin config r) (chunk.listChild r.id) := by
  refine failsOnly_vector.bind fun v hv ↦ ?_
  split
  · exact failsOnly_ok _
  next h => exact failsOnly_refuse_iff.2 (Refuses.listChild (vector_eq_ok_iff.1 hv) h).within

theorem failsOnly_structChild {k : Nat} :
    FailsOnly (chunk.RefusedWithin config r) (chunk.structChild r.id k) := by
  refine failsOnly_vector.bind fun v hv ↦ ?_
  split
  · exact failsOnly_ok _
  next h => exact failsOnly_refuse_iff.2 (Refuses.structChild (vector_eq_ok_iff.1 hv) h).within

theorem failsOnly_arrayChild :
    FailsOnly (chunk.RefusedWithin config r) (chunk.arrayChild r.id) := by
  refine failsOnly_vector.bind fun v hv ↦ ?_
  split
  · exact failsOnly_ok _
  next h => exact failsOnly_refuse_iff.2 (Refuses.arrayChild (vector_eq_ok_iff.1 hv) h).within

end Chunk

/-! ### Vectors of each type -/

namespace Column

open Chunk (Refuses LeadsTo failsOnly_require_of failsOnly_slots)
open Outcome (FailsOnly failsOnly_ok failsOnly_refuse_iff)

variable {chunk : Chunk} {config : DecodeConfig} {t : LogicalType}

/-- Requests for columns of the type fail only as requests that they lead to are refused. -/
def Explained (chunk : Chunk) (config : DecodeConfig) (t : LogicalType) : Prop :=
  ∀ level id count, FailsOnly (chunk.RefusedWithin config ⟨level, id, count, t⟩)
    (decodeAt chunk config level id count t)

theorem failsOnly_checkDepth {r : Request} :
    FailsOnly (chunk.RefusedWithin config r) (checkDepth config r.level) :=
  failsOnly_require_of fun h ↦ .level (Nat.not_le.1 (of_decide_eq_false h))

/-- A leaf is refused for its level or for its slots. -/
theorem explained_leaf {layout : Slots → Layout} {width valueWidth : Nat}
    (hwidth : chunk.slotWidth? t = some width)
    (hopens : OpensBySlots chunk config t layout width valueWidth)
    (hvalue : width < valueWidth → ∀ r : Request, r.type = t →
      chunk.Refuses config r (.argument .slotWidth)) : Explained chunk config t := by
  intro level id count
  rw [hopens]
  refine failsOnly_checkDepth.bind fun _ _ ↦ ?_
  exact (failsOnly_slots hwidth fun h ↦ hvalue h _ rfl).bind fun _ _ ↦ failsOnly_ok _

theorem explained_decimal (t : DecimalType) : Explained chunk config (.decimal t) := by
  intro level id count
  rw [decodeAt]
  refine failsOnly_checkDepth.bind fun _ _ ↦ ?_
  refine (failsOnly_require_of fun h ↦ .decimalScale rfl (of_decide_eq_false h)).bind fun _ _ ↦ ?_
  rw [DecimalType.physicalWidth]
  cases hwidth : t.physicalWidth? with
  | none => exact failsOnly_refuse_iff.2 (Refuses.decimalWidth rfl hwidth).within
  | some width =>
    have hslots : chunk.slotWidth? (.decimal t) = some width := hwidth
    exact (failsOnly_slots hslots fun h ↦ absurd h (Nat.lt_irrefl _)).bind fun _ _ ↦ failsOnly_ok _

/-- The early check of lists fails only because of an entry. -/
theorem failsOnly_validateEntries {slots : Slots} {child : Column} {len : Nat}
    (h : slots.Holds len) : FailsOnly (· = .error (.data .listEntry))
      (validateEntries ⟨.list slots child, 0, len⟩) := by
  refine FailsOnly.forM fun i hi ↦ ?_
  have hlt : i < len := List.mem_range.1 hi
  rw [Layout.listRange_bind_of_holds h (by simp) hlt]
  split
  · refine FailsOnly.bind (FailsOnly.bind (Outcome.failsOnly_require ?_) ?_)
      fun _ _ ↦ failsOnly_ok _
    · rfl
    · exact fun _ _ ↦ failsOnly_ok _
  · exact failsOnly_ok _

theorem explained_list {element : LogicalType} (h : Explained chunk config element) :
    Explained chunk config (.list element) := by
  intro level id count
  rw [decodeAt]
  refine failsOnly_checkDepth.bind fun _ _ ↦ ?_
  refine (failsOnly_slots rfl fun h ↦ absurd h (Nat.lt_irrefl _)).bind fun w hw ↦ ?_
  refine Chunk.failsOnly_listChild.bind fun (child, childCount) hchild ↦ ?_
  refine FailsOnly.bind ?_ fun elements helements ↦ ?_
  · intro failure hfailure
    exact (h _ _ _ failure hfailure).head (.element hchild)
  -- The elements were opened with the type that they have to have.
  have htype := (isOpened_of_decodeAt chunk.counts_true helements trivial).type_eq
  obtain ⟨hstart, hlen, -, -, hholds⟩ := Chunk.slots_spec hw
  rw [ofList_eq_ok_iff.2 ⟨htype, rfl⟩, ok_bind, hstart, hlen]
  split
  next heager =>
    refine FailsOnly.bind ?_ fun _ _ ↦ failsOnly_ok _
    intro failure hfailure
    obtain rfl := failsOnly_validateEntries hholds failure hfailure
    exact (Refuses.listEntry heager).within
  next => exact failsOnly_ok _

theorem explained_struct {fields : List (String × LogicalType)}
    (h : ∀ f ∈ fields, Explained chunk config f.2) : Explained chunk config (.struct fields) := by
  intro level id count
  rw [decodeAt_struct]
  refine failsOnly_checkDepth.bind fun _ _ ↦ Chunk.failsOnly_bitmap.bind fun words _ ↦ ?_
  refine FailsOnly.bind (FailsOnly.mapM fun f hf ↦ ?_) fun columns hcolumns ↦ ?_
  · have hget : fields[f.2]? = some f.1 := List.mem_zipIdx_iff_getElem?.1 hf
    refine Chunk.failsOnly_structChild.bind fun child hchild failure hfailure ↦ ?_
    exact (h f.1 (List.mem_of_getElem? hget) _ _ _ failure hfailure).head (.field hget hchild)
  · rw [(ofFields_of_openFields hcolumns).2]
    exact failsOnly_ok _

theorem explained_map {key value : LogicalType} (hkey : Explained chunk config key)
    (hvalue : Explained chunk config value) : Explained chunk config (.map key value) := by
  intro level id count failure hfailure
  have hentries : Explained chunk config (.list (.struct (LogicalType.mapEntry key value))) := by
    refine explained_list (explained_struct fun f hf ↦ ?_)
    rcases List.mem_pair.1 hf with rfl | rfl
    · exact hkey
    · exact hvalue
  rw [decodeAt_map] at hfailure
  rcases bind_eq_error_iff.1 hfailure with hlist | ⟨entries, hlist, hmake⟩
  · exact (hentries _ _ _ failure hlist).head .entries
  · obtain ⟨c, hc, -⟩ := exists_map_of_entries hlist
    rw [decodeAt_map, hlist, ok_bind, hmake] at hc
    cases hc

theorem explained_array {element : LogicalType} {length : UInt64}
    (h : Explained chunk config element) : Explained chunk config (.array element length) := by
  intro level id count
  rw [decodeAt]
  refine failsOnly_checkDepth.bind fun _ _ ↦ Chunk.failsOnly_bitmap.bind fun words _ ↦ ?_
  refine (failsOnly_require_of fun h ↦ ?_).bind fun _ hlt ↦ ?_
  · exact .childCount rfl (Nat.not_lt.1 (of_decide_eq_false h))
  refine Chunk.failsOnly_arrayChild.bind fun child hchild ↦ ?_
  refine FailsOnly.bind ?_ fun elements helements ↦ ?_
  · intro failure hfailure
    exact (h _ _ _ failure hfailure).head (.item hchild)
  have hlt : count * length.toNat < Chunk.sizeLimit :=
    of_decide_eq_true (Outcome.require_eq_ok.1 hlt)
  have hopened := isOpened_of_decodeAt chunk.counts_true helements trivial
  rw [ofArray_eq_ok_iff.2 ⟨hopened.type_eq, hlt, hopened.len_eq.ge, rfl⟩]
  exact failsOnly_ok _

theorem explained_union {alternatives : List (String × LogicalType)}
    (h : ∀ a ∈ alternatives, Explained chunk config a.2)
    (htag : Explained chunk config LogicalType.tagType) :
    Explained chunk config (.union alternatives) := by
  intro level id count failure hfailure
  have hmembers : Explained chunk config (.struct (LogicalType.unionMembers alternatives)) := by
    refine explained_struct fun f hf ↦ ?_
    rcases List.mem_cons.1 hf with rfl | hf
    · exact htag
    · exact h f hf
  rw [decodeAt_union] at hfailure
  rcases bind_eq_error_iff.1 hfailure with hstruct | ⟨members, hstruct, hmake⟩
  · exact (hmembers _ _ _ failure hstruct).head .members
  · obtain ⟨c, hc, -⟩ := exists_union_of_members hstruct
    rw [decodeAt_union, hstruct, ok_bind, hmake] at hc
    cases hc

theorem explained_fixed (kind : FixedKind) : Explained chunk config (.fixed kind) :=
  explained_leaf rfl (fun _ _ _ ↦ rfl) fun h _ hr ↦ .slotWidth hr h

/-- Whatever the chunk and the type, if opening a vector fails, then a request that it led to was
refused by itself. The induction is on the type. -/
theorem failsOnly_decodeAt (r : Request) :
    FailsOnly (chunk.RefusedWithin config r)
      (decodeAt chunk config r.level r.id r.count r.type) := by
  suffices h : ∀ t, Explained chunk config t from h r.type r.level r.id r.count
  intro t
  induction t using LogicalType.inductionOn with
  | fixed kind => exact explained_fixed kind
  | string kind =>
    have hopens : OpensBySlots chunk config (.string kind) (.string kind · chunk.heap)
      StringSlot.width StringSlot.width := fun _ _ _ ↦ rfl
    exact explained_leaf rfl hopens fun h ↦ absurd h (Nat.lt_irrefl _)
  | decimal type => exact explained_decimal type
  | enumeration type =>
    have hopens : OpensBySlots chunk config (.enumeration type)
      (.enumeration type type.indexWidth) type.indexWidth type.indexWidth := fun _ _ _ ↦ rfl
    exact explained_leaf rfl hopens fun h ↦ absurd h (Nat.lt_irrefl _)
  | list element ih => exact explained_list ih
  | struct fields ih => exact explained_struct ih
  | map key value ihKey ihValue => exact explained_map ihKey ihValue
  | array element length ih => exact explained_array ih
  | union alternatives ih => exact explained_union ih (explained_fixed _)
  | other id =>
    intro level vector count
    rw [decodeAt]
    exact failsOnly_checkDepth.bind fun _ _ ↦
      failsOnly_refuse_iff.2 (Refuses.unsupported rfl).within

end Column

end Columnar
