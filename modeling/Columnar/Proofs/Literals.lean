import Columnar.Builder.Vector
import Columnar.Proofs.Bits
import Columnar.Proofs.Leaves

/-!
# What a literal stands for

The rules by which literals are read back. `LogicalType.Accepts` says which literals belong to a
type: null, or the literals of its own shape that fit, part by part. `LogicalType.valueOf` is the
value of such a literal in a column of the type. Neither mentions bytes.

A map literal stands for the list of its pairs, and a union literal for the struct of a tag and of
all alternatives, where only the selected one is not null (`Literal.entries`, `Literal.members`).

`LogicalType.Affordable` is about memory: the sizes that encoding asks for, one level after the
other, stay below the limit of what can be asked for.
-/

namespace Columnar

namespace Literal

/-- The value of a literal of a fixed width. -/
def scalar : Literal → Value
  | .boolean b => .boolean b
  | .integer kind n => .integer kind n
  | .float bits => .float bits
  | .double bits => .double bits
  | .temporal kind n => .temporal kind n
  | .timeTz t => .timeTz t
  | .interval i => .interval i
  | .uuid u => .uuid u
  | _ => .null

/-- The elements of a list. -/
def items : Literal → List Literal
  | .list items => items
  | _ => []

/-- The `length` elements of an array, which are null if the array is. -/
def elements (length : Nat) : Literal → List Literal
  | .array items => items
  | _ => List.replicate length .null

/-- The field of a struct at a position. -/
def field (index : Nat) : Literal → Literal
  | .struct fields => fields.getD index .null
  | _ => .null

/-- A map as the list of its pairs. -/
def entries : Literal → Literal
  | .map pairs => .list (pairs.map fun (key, value) ↦ .struct [key, value])
  | _ => .null

/-- A union as the struct of its tag and of `count` alternatives. -/
def members (count : Nat) : Literal → Literal
  | .union tag member =>
    .struct <| .integer .uTinyInt tag.toNat ::
      (List.range count).map fun i ↦ if i = tag.toNat then member else .null
  | _ => .null

@[simp] theorem items_null : items .null = [] := rfl

@[simp] theorem length_elements_null (length : Nat) :
    (elements length .null).length = length := by
  simp [elements]

@[simp] theorem field_struct_cons_zero (l : Literal) (rest : List Literal) :
    field 0 (.struct (l :: rest)) = l := rfl

@[simp] theorem field_struct_cons_succ (l : Literal) (rest : List Literal) (index : Nat) :
    field (index + 1) (.struct (l :: rest)) = field index (.struct rest) := rfl

/-- Behind the tag, a member is null unless the tag selects it. -/
theorem field_members_union (tag : UInt8) (member : Literal) {count index : Nat}
    (h : index < count) :
    field (index + 1) (members count (.union tag member)) =
      if index = tag.toNat then member else .null := by
  simp [members, field, h]

end Literal

/-! ### Leaves -/

/-- The literals that strings of a kind are made of, whose payloads have to be shorter than 4 GiB. Bits
are written with one digit at least. -/
def StringKind.Accepts : StringKind → Literal → Prop
  | .varchar, .varchar s => s.utf8ByteSize < UInt32.size
  | .blob, .blob bytes => bytes.length < UInt32.size
  | .bit, .bit digits => digits ≠ "" ∧ (∀ c ∈ digits.toList, c = '0' ∨ c = '1') ∧
    (digits.length + 7) / 8 + 1 < UInt32.size
  | _, _ => False

/-- The value of a string. -/
def Literal.stringValue : Literal → Value
  | .varchar s => .varchar s
  | .blob bytes => .blob bytes
  | .bit digits => .bit (BitString.ofDigits digits)
  | _ => .null

/-- The decimals that the column has room for. -/
def DecimalType.Accepts (t : DecimalType) (l : Literal) : Prop :=
  ∃ width n, t.physicalWidth? = some width ∧ SignedRange width n ∧ l = .decimal n

/-- The value of a scaled integer. -/
def DecimalType.valueOf (t : DecimalType) : Literal → Value
  | .decimal n => .decimal ⟨n, t.width, t.scale⟩
  | _ => .null

/-- The position in the dictionary that a literal stands for. -/
def EnumType.position? (t : EnumType) : Literal → Option Nat
  | .enumeration s => t.find? s
  | .enumIndex index => if index < t.values.size then some index else none
  | _ => none

/-- The literals of dictionary entries, at a position of 32 bits. -/
def EnumType.Accepts (t : EnumType) (l : Literal) : Prop :=
  ∃ index < UInt32.size, t.position? l = some index

/-- The value of an entry, by its text or by its position. -/
def EnumType.valueOf (t : EnumType) : Literal → Value
  | .enumeration s => .enumeration s
  | .enumIndex index => (t.values[index]?.map .enumeration).getD .null
  | _ => .null

namespace LogicalType

/-! ### Types -/

mutual

/-- The literal fits the type. -/
def Accepts (t : LogicalType) (l : Literal) : Prop :=
  l = .null ∨
    match t with
    | .fixed kind => kind.Admits l.scalar
    | .string kind => kind.Accepts l
    | .decimal t => t.Accepts l
    | .enumeration t => t.Accepts l
    | .list element => ∃ items, l = .list items ∧ ∀ item ∈ items, element.Accepts item
    | .struct fields =>
      ∃ values, l = .struct values ∧ values.length = fields.length ∧ FieldsAccept fields 0 l
    | .map key value =>
      ∃ pairs, l = .map pairs ∧ ∀ p ∈ pairs, key.Accepts p.1 ∧ value.Accepts p.2
    | .array element length =>
      ∃ items, l = .array items ∧ items.length = length.toNat ∧ ∀ item ∈ items, element.Accepts item
    | .union alternatives =>
      ∃ tag member, l = .union tag member ∧ MemberAccepts alternatives tag.toNat member
    | .other _ => False

/-- The fields of the struct literal from position `index` on fit their types. -/
def FieldsAccept : List (String × LogicalType) → Nat → Literal → Prop
  | [], _, _ => True
  | (_, t) :: rest, index, l => t.Accepts (l.field index) ∧ FieldsAccept rest (index + 1) l

/-- There is an alternative at the position, and the literal fits it. -/
def MemberAccepts : List (String × LogicalType) → Nat → Literal → Prop
  | [], _, _ => False
  | (_, t) :: _, 0, l => t.Accepts l
  | _ :: rest, tag + 1, l => MemberAccepts rest tag l

end

mutual

/-- The value of a literal that fits the type. -/
def valueOf (t : LogicalType) (l : Literal) : Value :=
  match t with
  | .fixed _ => l.scalar
  | .string _ => l.stringValue
  | .decimal t => t.valueOf l
  | .enumeration t => t.valueOf l
  | .list element =>
    match l with
    | .list items => .list element items.length fun j ↦ .ok (element.valueOf (items.get j))
    | _ => .null
  | .struct fields =>
    match l with
    | .struct _ => .struct (fieldValues fields 0 l)
    | _ => .null
  | .map key value =>
    match l with
    | .map pairs => .map (pairs.map fun p ↦ (key.valueOf p.1, value.valueOf p.2))
    | _ => .null
  | .array element length =>
    match l with
    | .array items =>
      .array element length.toNat fun j ↦ .ok (element.valueOf (items.getD j .null))
    | _ => .null
  | .union alternatives =>
    match l with
    | .union tag member => memberValue alternatives tag.toNat member
    | _ => .null
  | .other _ => .null

/-- The names of the fields with the values of the struct literal from position `index` on. -/
def fieldValues : List (String × LogicalType) → Nat → Literal → List (String × Value)
  | [], _, _ => []
  | (name, t) :: rest, index, l => (name, t.valueOf (l.field index)) :: fieldValues rest (index + 1) l

/-- The value of the literal as the alternative at the position. -/
def memberValue : List (String × LogicalType) → Nat → Literal → Value
  | [], _, _ => .null
  | (name, t) :: _, 0, l => .union name (t.valueOf l)
  | _ :: rest, tag + 1, l => memberValue rest tag l

end

mutual

/-- There are columns of the type: no part of it is without one, and decimals have 1 to 38 digits, of
which no more than all follow the point. -/
def Storable : LogicalType → Prop
  | .fixed _ | .string _ | .enumeration _ => True
  | .decimal t => 1 ≤ t.width.toNat ∧ t.width.toNat ≤ 38 ∧ t.scale ≤ t.width
  | .list element | .array element _ => element.Storable
  | .struct fields | .union fields => FieldsStorable fields
  | .map key value => key.Storable ∧ value.Storable
  | .other _ => False

/-- There are columns of the types of all fields. -/
def FieldsStorable : List (String × LogicalType) → Prop
  | [] => True
  | (_, t) :: rest => t.Storable ∧ FieldsStorable rest

end

/-! ### Memory -/

section Affordable

variable (booleanWidth padding : Nat)

/-- The literals of the child of lists: all elements, then the unused rows. -/
def listed (padding : Nat) (values : List Literal) : List Literal :=
  values.flatMap Literal.items ++ List.replicate padding .null

mutual

/-- There is memory to encode the literals, with booleans of `booleanWidth` bytes and `padding` unused
rows in the child of every list. The literals of a level are in memory while it is encoded, and no
slot takes more bytes than a literal does, but for booleans that are made to. -/
def Affordable (t : LogicalType) (values : List Literal) : Prop :=
  values.length * Encoder.literalSize < Encoding.memoryLimit ∧
    match t with
    | .fixed .boolean => values.length * booleanWidth < Encoding.memoryLimit
    | .fixed _ | .string _ | .decimal _ | .enumeration _ | .other _ => True
    | .list element => element.Affordable (listed padding values)
    | .struct fields => FieldsAffordable fields 0 values
    | .map key value =>
      let entries := listed padding (values.map Literal.entries)
      entries.length * Encoder.literalSize < Encoding.memoryLimit ∧
        key.Affordable (entries.map (Literal.field 0)) ∧
        value.Affordable (entries.map (Literal.field 1))
    | .array element length => element.Affordable (values.flatMap (Literal.elements length.toNat))
    | .union alternatives =>
      FieldsAffordable alternatives 1 (values.map (Literal.members alternatives.length))

/-- There is memory to encode the fields of the struct literals from position `index` on. -/
def FieldsAffordable : List (String × LogicalType) → Nat → List Literal → Prop
  | [], _, _ => True
  | (_, t) :: rest, index, values =>
    t.Affordable (values.map (Literal.field index)) ∧ FieldsAffordable rest (index + 1) values

end

end Affordable

/-! ### Fields, by their positions -/

section Fields

variable {fields alternatives : List (String × LogicalType)} {index tag : Nat} {l : Literal}

theorem fieldsAccept_iff :
    FieldsAccept fields index l ↔ ∀ f ∈ fields.zipIdx index, f.1.2.Accepts (l.field f.2) := by
  induction fields generalizing index with
  | nil => simp [FieldsAccept]
  | cons f fields ih => rw [FieldsAccept, ih, List.zipIdx_cons, List.forall_mem_cons]

theorem memberAccepts_iff :
    MemberAccepts alternatives tag l ↔ ∃ a, alternatives[tag]? = some a ∧ a.2.Accepts l := by
  induction alternatives generalizing tag with
  | nil => simp [MemberAccepts]
  | cons a rest ih => cases tag <;> simp [MemberAccepts, ih]

theorem fieldValues_eq_map (fields : List (String × LogicalType)) (index : Nat) (l : Literal) :
    fieldValues fields index l =
      (fields.zipIdx index).map fun f ↦ (f.1.1, f.1.2.valueOf (l.field f.2)) := by
  induction fields generalizing index with
  | nil => rfl
  | cons f fields ih => rw [fieldValues, ih, List.zipIdx_cons, List.map_cons]

theorem memberValue_of_getElem? {a : String × LogicalType} (h : alternatives[tag]? = some a) :
    memberValue alternatives tag l = .union a.1 (a.2.valueOf l) := by
  induction alternatives generalizing tag with
  | nil => simp at h
  | cons b rest ih =>
    cases tag with
    | zero =>
      obtain rfl : b = a := by simpa using h
      rfl
    | succ tag => exact ih (by simpa using h)

theorem fieldsStorable_iff : FieldsStorable fields ↔ ∀ f ∈ fields, f.2.Storable := by
  induction fields with
  | nil => simp [FieldsStorable]
  | cons f fields ih => rw [FieldsStorable, ih, List.forall_mem_cons]

theorem fieldsAffordable_iff {booleanWidth padding : Nat} {values : List Literal} :
    FieldsAffordable booleanWidth padding fields index values ↔
      ∀ f ∈ fields.zipIdx index,
        f.1.2.Affordable booleanWidth padding (values.map (Literal.field f.2)) := by
  induction fields generalizing index with
  | nil => simp [FieldsAffordable]
  | cons f fields ih => rw [FieldsAffordable, ih, List.zipIdx_cons, List.forall_mem_cons]

end Fields

theorem Affordable.length_lt {booleanWidth padding : Nat} {t : LogicalType} {values : List Literal}
    (h : t.Affordable booleanWidth padding values) :
    values.length * Encoder.literalSize < Encoding.memoryLimit := by
  rw [Affordable.eq_def] at h
  exact h.1

/-! ### Parts of literals that fit -/

theorem accepts_null (t : LogicalType) : t.Accepts .null := by
  rw [Accepts.eq_def]
  exact .inl rfl

@[simp] theorem valueOf_null (t : LogicalType) : t.valueOf .null = .null := by
  cases t <;> simp [valueOf, Literal.scalar, Literal.stringValue, DecimalType.valueOf,
    EnumType.valueOf]

section Accepts

variable {element key value : LogicalType} {fields alternatives : List (String × LogicalType)}
  {l : Literal}

theorem accepts_list_iff :
    (LogicalType.list element).Accepts l ↔
      l = .null ∨ ∃ items, l = .list items ∧ ∀ item ∈ items, element.Accepts item := by
  rw [Accepts]

theorem accepts_struct_iff :
    (LogicalType.struct fields).Accepts l ↔
      l = .null ∨ ∃ values, l = .struct values ∧ values.length = fields.length ∧
        ∀ f ∈ fields.zipIdx, f.1.2.Accepts (l.field f.2) := by
  rw [Accepts, fieldsAccept_iff]

theorem accepts_map_iff :
    (LogicalType.map key value).Accepts l ↔
      l = .null ∨ ∃ pairs, l = .map pairs ∧ ∀ p ∈ pairs, key.Accepts p.1 ∧ value.Accepts p.2 := by
  rw [Accepts]

theorem accepts_array_iff {length : UInt64} :
    (LogicalType.array element length).Accepts l ↔
      l = .null ∨ ∃ items, l = .array items ∧ items.length = length.toNat ∧
        ∀ item ∈ items, element.Accepts item := by
  rw [Accepts]

theorem accepts_union_iff :
    (LogicalType.union alternatives).Accepts l ↔
      l = .null ∨ ∃ tag member a, l = .union tag member ∧ alternatives[tag.toNat]? = some a ∧
        a.2.Accepts member := by
  simp only [Accepts, memberAccepts_iff, exists_and_left]

theorem accepts_listed {padding : Nat} {values : List Literal}
    (h : ∀ l ∈ values, (LogicalType.list element).Accepts l) :
    ∀ item ∈ listed padding values, element.Accepts item := by
  intro item hitem
  rcases List.mem_append.1 hitem with hitem | hitem
  · obtain ⟨l, hl, hitem⟩ := List.mem_flatMap.1 hitem
    rcases accepts_list_iff.1 (h l hl) with rfl | ⟨items, rfl, hitems⟩
    · simp at hitem
    · exact hitems item hitem
  · exact List.eq_of_mem_replicate hitem ▸ accepts_null element

theorem accepts_field (h : (LogicalType.struct fields).Accepts l) {f : (String × LogicalType) × Nat}
    (hf : f ∈ fields.zipIdx) : f.1.2.Accepts (l.field f.2) := by
  rcases accepts_struct_iff.1 h with rfl | ⟨values, rfl, -, hfields⟩
  · exact accepts_null _
  · exact hfields f hf

/-- A pair of a map is a struct of two fields. -/
theorem accepts_entries (h : (LogicalType.map key value).Accepts l) :
    (LogicalType.list (.struct (mapEntry key value))).Accepts l.entries := by
  rw [accepts_list_iff]
  rcases accepts_map_iff.1 h with rfl | ⟨pairs, rfl, hpairs⟩
  · exact .inl rfl
  · refine .inr ⟨_, rfl, fun item hitem ↦ ?_⟩
    obtain ⟨p, hp, rfl⟩ := List.mem_map.1 hitem
    refine accepts_struct_iff.2 (.inr ⟨_, rfl, rfl, fun f hf ↦ ?_⟩)
    rcases List.mem_pair.1 hf with rfl | rfl
    · exact (hpairs p hp).1
    · exact (hpairs p hp).2

theorem accepts_elements {length : UInt64} (h : (LogicalType.array element length).Accepts l) :
    (l.elements length.toNat).length = length.toNat ∧
      ∀ item ∈ l.elements length.toNat, element.Accepts item := by
  rcases accepts_array_iff.1 h with rfl | ⟨items, rfl, hlen, hitems⟩
  · refine ⟨by simp, fun item hitem ↦ ?_⟩
    exact List.eq_of_mem_replicate hitem ▸ accepts_null element
  · exact ⟨hlen, hitems⟩

/-- A union is a struct whose tag is a byte and whose alternatives are null, but for one. -/
theorem accepts_members (h : (LogicalType.union alternatives).Accepts l) :
    (LogicalType.struct (unionMembers alternatives)).Accepts (l.members alternatives.length) := by
  rw [accepts_struct_iff]
  rcases accepts_union_iff.1 h with rfl | ⟨tag, member, a, rfl, ha, hmember⟩
  · exact .inl rfl
  · refine .inr ⟨_, rfl, by simp [unionMembers], fun f hf ↦ ?_⟩
    rw [unionMembers, List.zipIdx_cons] at hf
    rcases List.mem_cons.1 hf with rfl | hf
    · have htag : IntegerKind.uTinyInt.Contains tag.toNat := by
        have hlt : (tag.toNat : Int) < (Nat.pow 2 8 : Nat) := Int.ofNat_lt.2 tag.toNat_lt
        exact ⟨Int.natCast_nonneg _, hlt⟩
      rw [Accepts]
      exact .inr ⟨rfl, htag⟩
    · -- The alternative of the tag has the member, all others have a null.
      obtain ⟨b, i⟩ := f
      obtain ⟨hle, hb⟩ := List.mem_zipIdx_iff_le_and_getElem?_sub.1 hf
      obtain ⟨index, rfl⟩ := Nat.exists_eq_add_of_le' hle
      have hb : alternatives[index]? = some b := hb
      obtain ⟨hlt, -⟩ := List.getElem?_eq_some_iff.1 hb
      show b.2.Accepts (Literal.field (index + 1) _)
      rw [Literal.field_members_union _ _ hlt]
      split
      next htag =>
        obtain rfl : a = b := Option.some.inj (ha.symm.trans (htag ▸ hb))
        exact hmember
      next => exact accepts_null _

end Accepts

end LogicalType

end Columnar
