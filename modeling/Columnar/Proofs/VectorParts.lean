import Columnar.Proofs.Encoded

/-!
# What a vector is encoded from

The encoders of all types do one thing (`Encoder.addVector_eq`). They make the bytes of the vector
itself (`Encoder.ownData`), then add the vectors of its parts, one for each, and add the vector last.
Which parts there are is known from the type (`LogicalType.partTypes`), and the literals of each from
those of the vector (`LogicalType.partsOf`). A map has one part, the structs of its keys and values,
and a union has its tags as the first one.

Only the bytes of strings need the builder, for payloads; all others are computed from the literals
(`Encoder.slotData`). What is proved about encoders needs no more than this, by induction
from the parts of a type to the type (`LogicalType.inductionOnParts`).
-/

namespace Columnar

namespace LogicalType

/-! ### Parts of types -/

/-- The types of the children of a vector. -/
def partTypes : LogicalType → List LogicalType
  | .fixed _ | .string _ | .decimal _ | .enumeration _ | .other _ => []
  | .list element | .array element _ => [element]
  | .struct fields => fields.map (·.2)
  | .map key value => [.struct (mapEntry key value)]
  | .union alternatives => (unionMembers alternatives).map (·.2)

/-- Induction over types, from the types of the children of a vector to that of the vector. -/
@[elab_as_elim]
theorem inductionOnParts {motive : LogicalType → Prop} (t : LogicalType)
    (step : ∀ t, (∀ p ∈ t.partTypes, motive p) → motive t) : motive t := by
  induction t using LogicalType.inductionOn with
  | fixed _ | string _ | decimal _ | enumeration _ | other _ =>
    exact step _ fun p hp ↦ absurd hp List.not_mem_nil
  | list element ih => exact step _ fun p hp ↦ List.mem_singleton.1 hp ▸ ih
  | array element length ih => exact step _ fun p hp ↦ List.mem_singleton.1 hp ▸ ih
  | struct fields ih =>
    refine step _ fun p hp ↦ ?_
    obtain ⟨f, hf, rfl⟩ := List.mem_map.1 hp
    exact ih f hf
  | map key value ihKey ihValue =>
    refine step _ fun p hp ↦ List.mem_singleton.1 hp ▸ step _ fun q hq ↦ ?_
    rcases List.mem_pair.1 hq with rfl | rfl
    · exact ihKey
    · exact ihValue
  | union alternatives ih =>
    refine step _ fun p hp ↦ ?_
    rcases List.mem_cons.1 hp with rfl | hp
    · exact step _ fun p hp ↦ absurd hp List.not_mem_nil
    · obtain ⟨a, ha, rfl⟩ := List.mem_map.1 hp
      exact ih a ha

/-- The fields of structs, each with its literals. -/
def fieldParts (fields : List (String × LogicalType)) (structs : List Literal) :
    List (LogicalType × List Literal) :=
  fields.zipIdx.map fun f ↦ (f.1.2, structs.map (Literal.field f.2))

/-- The children of a vector, each with its type and its literals, where the child of lists has
`padding` unused rows. -/
def partsOf (padding : Nat) (t : LogicalType) (values : List Literal) :
    List (LogicalType × List Literal) :=
  match t with
  | .fixed _ | .string _ | .decimal _ | .enumeration _ | .other _ => []
  | .list element => [(element, listed padding values)]
  | .struct fields => fieldParts fields values
  | .map key value => [(.struct (mapEntry key value), listed padding (values.map Literal.entries))]
  | .array element length => [(element, values.flatMap (Literal.elements length.toNat))]
  | .union alternatives =>
    fieldParts (unionMembers alternatives) (values.map (Literal.members alternatives.length))

theorem fieldParts_map_fst (fields : List (String × LogicalType)) (structs : List Literal) :
    (fieldParts fields structs).map (·.1) = fields.map (·.2) := by
  rw [fieldParts, List.map_map]
  conv_rhs => rw [← List.zipIdx_map_fst 0 fields, List.map_map]
  rfl

theorem partsOf_map_fst (padding : Nat) (t : LogicalType) (values : List Literal) :
    (partsOf padding t values).map (·.1) = t.partTypes := by
  cases t with
  | struct fields => exact fieldParts_map_fst _ _
  | union alternatives => exact fieldParts_map_fst _ _
  | _ => rfl

theorem fst_mem_partTypes {padding : Nat} {t : LogicalType} {values : List Literal}
    {part : LogicalType × List Literal} (h : part ∈ partsOf padding t values) :
    part.1 ∈ t.partTypes :=
  partsOf_map_fst padding t values ▸ List.mem_map_of_mem h

/-- The number of element rows that a vector of lists records. -/
def elementCount (padding : Nat) (t : LogicalType) (values : List Literal) : Nat :=
  match t with
  | .list _ => (listed padding values).length
  | .map _ _ => (listed padding (values.map Literal.entries)).length
  | _ => 0

end LogicalType

open LogicalType (listed partsOf fieldParts elementCount)

namespace Encoder

/-! ### Checked rows -/

section Rows

variable {type : LogicalType} {count : Nat} {l : Literal}

theorem listRow_eq_ok_iff {row : Option (List Literal)} :
    listRow type l = .ok row ↔ (l = .null ∨ ∃ items, l = .list items) ∧ row = listOf l := by
  cases l <;> simp [listRow, listOf, Encoding.refuse, eq_comm]

theorem mapRow_eq_ok_iff {row : Option (List Literal)} :
    mapRow type l = .ok row ↔ (l = .null ∨ ∃ pairs, l = .map pairs) ∧ row = listOf l.entries := by
  cases l <;> simp [mapRow, listOf, Literal.entries, Encoding.refuse, eq_comm]

theorem arrayRow_eq_ok_iff {row : List Literal} :
    arrayRow type count l = .ok row ↔
      (l = .null ∨ ∃ items, l = .array items ∧ items.length = count) ∧ row = l.elements count := by
  cases l with
  | array items =>
    rw [arrayRow]
    split_ifs with h
    · simp [h, Literal.elements, eq_comm]
    · simp [h, Encoding.refuse]
  | _ => simp [arrayRow, Literal.elements, Encoding.refuse, eq_comm]

theorem structRow_eq_ok_iff {row : Option (List Literal)} :
    structRow type count l = .ok row ↔
      (l = .null ∨ ∃ fields, l = .struct fields ∧ fields.length = count) ∧ row = fieldsOf l := by
  cases l with
  | struct fields =>
    rw [structRow]
    split_ifs with h
    · simp [h, fieldsOf, eq_comm]
    · simp [h, Encoding.refuse]
  | _ => simp [structRow, fieldsOf, Encoding.refuse, eq_comm]

theorem unionRow_eq_ok_iff {row : Option (List Literal)} :
    unionRow type count l = .ok row ↔
      (l = .null ∨ ∃ tag member, l = .union tag member) ∧ row = fieldsOf (l.members count) := by
  cases l <;> simp [unionRow, fieldsOf, Literal.members, Encoding.refuse, eq_comm]

end Rows

/-- Rows that are known from the literals need not be kept when they have been checked. -/
theorem checked_bind {α β : Type} {row : Literal → Encoding α} {g : Literal → α}
    (h : ∀ l r, row l = .ok r → r = g l) (values : List Literal) (k : List α → Encoder β) :
    checked row values >>= k = (liftM (values.mapM row) : Encoder (List α)) >>= fun _ ↦
      k (values.map g) := by
  show (liftM (values.mapM row) : Encoder (List α)) >>= k = _
  cases hrows : values.mapM row with
  | error failure => rfl
  | ok rows =>
    have hmap : rows = values.map g := by
      have hall := (mapM_eq_ok_iff.1 hrows).imp fun l r hr ↦ (h l r hr).symm
      rwa [← List.forall₂_map_left_iff, List.forall₂_eq_eq_eq, eq_comm] at hall
    rw [hmap]
    rfl

/-! ### Own bytes -/

/-- The bytes of the slots of a vector, which are made after its rows have been checked. Strings are
left out. -/
def slotData (b : Builder) (t : LogicalType) (values : List Literal) : Encoding (Array UInt8) :=
  match t with
  | .fixed kind => encodeSlots (Column.slotWidth b.toChunk kind) kind.encode values
  | .string _ => return #[]
  | .decimal t => t.encodeSlots values
  | .enumeration t => t.encodeSlots values
  | .list _ => do
    let _ ← values.mapM (listRow t)
    Encoding.reserve (listed b.listPadding values).length literalSize
    return (entrySlots 0 (values.map listOf)).toArray
  | .struct fields => do
    let _ ← values.mapM (structRow t fields.length)
    return #[]
  | .map _ _ => do
    let _ ← values.mapM (mapRow t)
    let lists := values.map Literal.entries
    Encoding.reserve (listed b.listPadding lists).length literalSize
    return (entrySlots 0 (lists.map listOf)).toArray
  | .array _ length => do
    Encoding.reserve (values.length * length.toNat) literalSize
    let _ ← values.mapM (arrayRow t length.toNat)
    return #[]
  | .union alternatives => do
    let _ ← values.mapM (unionRow t alternatives.length)
    return #[]
  | .other id => Encoding.refuse (.noEncoder id)

/-- The bytes of the slots of a vector. Those of strings may need payloads on the heap. -/
def ownData (b : Builder) (t : LogicalType) (values : List Literal) : Encoder (Array UInt8) :=
  match t with
  | .string kind => do
    let slots ← values.mapM (stringSlot kind)
    return slots.flatten.toArray
  | t => slotData b t values

/-- The vector of a type, given what depends on the chunk: its bytes and its children. -/
def vectorOf (b : Builder) (t : LogicalType) (values : List Literal) (data : Array UInt8)
    (children : List Nat) : RawVector where
  type := t
  data := data
  validity := bitmapOf values
  children := children
  childCount := elementCount b.listPadding t values

/-! ### One encoder for all types -/

section Laws

variable {α β : Type}

theorem lift_bind (x : Encoding α) (f : α → Encoding β) :
    (liftM (x >>= f) : Encoder β) = liftM x >>= fun a ↦ liftM (f a) := by
  cases x <;> rfl

/-- It makes no difference whether the builder is asked for before or after a computation without
it. -/
theorem lift_bind_get (x : Encoding α) (k : α → Builder → Encoder β) :
    ((liftM x : Encoder α) >>= fun a ↦ get >>= k a) =
      get >>= fun b ↦ (liftM x : Encoder α) >>= fun a ↦ k a b := by
  cases x <;> rfl

end Laws

theorem addLists_listOf (type : LogicalType) (values lists : List Literal)
    (addElements : List Literal → Encoder Nat) :
    addLists type values (lists.map listOf) addElements = (do
      let b ← get
      Encoding.reserve (listed b.listPadding lists).length literalSize
      let child ← addElements (listed b.listPadding lists)
      push {
        type
        data := (entrySlots 0 (lists.map listOf)).toArray
        validity := bitmapOf values
        children := [child]
        childCount := (listed b.listPadding lists).length }) := by
  have hlength : ∀ padding, (lists.flatMap Literal.items).length + padding =
      (listed padding lists).length := fun padding ↦ by
    rw [listed, List.length_append, List.length_replicate]
  simp only [addLists, flatMap_listOf, hlength]
  rfl

theorem addFields_fieldsOf (fields : List (String × LogicalType)) (structs : List Literal) :
    addFields (structs.map fieldsOf) 0 (fields.map fun f values ↦ addVector f.2 values) =
      (fieldParts fields structs).mapM fun part ↦ addVector part.1 part.2 := by
  rw [addFields_eq_mapM, List.zipIdx_map, List.mapM_map, fieldParts, List.mapM_map]
  simp only [fieldOf_fieldsOf]
  rfl

/-- Encoding a vector is the same for all types: first its own bytes, then its children, one by one,
then the vector. -/
theorem addVector_eq (t : LogicalType) (values : List Literal) :
    addVector t values = (do
      let b ← get
      let data ← ownData b t values
      let children ← (partsOf b.listPadding t values).mapM fun part ↦ addVector part.1 part.2
      push (vectorOf b t values data children)) := by
  cases t with
  | fixed kind => cases kind <;> rfl
  | string kind =>
    simp only [ownData, bind_assoc, pure_bind]
    rfl
  | decimal type => rfl
  | enumeration type => rfl
  | list element =>
    show checked (listRow (.list element)) values >>= (fun rows ↦
      addLists (.list element) values rows fun items ↦ addVector element items) = _
    rw [checked_bind fun l r h ↦ (listRow_eq_ok_iff.1 h).2]
    simp only [addLists_listOf, lift_bind_get, ownData, slotData, lift_bind, bind_assoc,
      pure_bind, partsOf, List.mapM_cons, List.mapM_nil]
    rfl
  | struct fields =>
    show checked (structRow (.struct fields) fields.length) values >>= (fun rows ↦
      addStructs (.struct fields) values rows (fieldEncoders fields)) = _
    rw [checked_bind fun l r h ↦ (structRow_eq_ok_iff.1 h).2, fieldEncoders_eq_map]
    simp only [addStructs, addFields_fieldsOf, ownData, slotData, lift_bind, bind_assoc, partsOf]
    rfl
  | map key value =>
    show checked (mapRow (.map key value)) values >>= (fun rows ↦
      addLists (.map key value) values rows fun items ↦
        addVector (.struct (LogicalType.mapEntry key value)) items) = _
    rw [checked_bind (g := listOf ∘ Literal.entries) fun l r h ↦ (mapRow_eq_ok_iff.1 h).2,
      ← List.map_map]
    simp only [addLists_listOf, lift_bind_get, ownData, slotData, lift_bind, bind_assoc,
      pure_bind, partsOf, List.mapM_cons, List.mapM_nil]
    rfl
  | array element length =>
    show liftM (Encoding.reserve (values.length * length.toNat) literalSize) >>= (fun _ ↦
      checked (arrayRow (.array element length) length.toNat) values >>= fun rows ↦
      addVector element rows.flatten >>= fun child ↦ push
        { type := .array element length, validity := bitmapOf values, children := [child] }) = _
    rw [checked_bind fun l r h ↦ (arrayRow_eq_ok_iff.1 h).2]
    simp only [← List.flatMap_def, ownData, slotData, lift_bind, bind_assoc,
      pure_bind, partsOf, List.mapM_cons, List.mapM_nil]
    rfl
  | union alternatives =>
    show checked (unionRow (.union alternatives) alternatives.length) values >>= (fun rows ↦
      addStructs (.union alternatives) values rows
        (fieldEncoders (LogicalType.unionMembers alternatives))) = _
    rw [checked_bind (g := fieldsOf ∘ Literal.members alternatives.length) fun l r h ↦
      (unionRow_eq_ok_iff.1 h).2, ← List.map_map, fieldEncoders_eq_map]
    simp only [addStructs, addFields_fieldsOf, ownData, slotData, lift_bind, bind_assoc, partsOf]
    rfl
  | other id => rfl

end Encoder

end Columnar
