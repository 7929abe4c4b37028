import Columnar.Kind
import Columnar.Failure

/-!
# Logical types

The declared type of a column and of everything inside it. Types without parameters are given by
their kind; the nested ones carry the types of their children. `other` stands for the identifiers
that have no columns of their own (`ANY`, `VARINT`, `NULL`, `INVALID`).

A map is stored as a list of key/value structs and a union as a struct that starts with the tag:
`mapEntry` and `unionMembers` are the fields of those structs.
-/

namespace Columnar

/-- The parameters of a decimal: its number of digits, and how many of them follow the point. -/
structure DecimalType where
  width : UInt8
  scale : UInt8
  deriving DecidableEq, Repr

namespace DecimalType

/-- The number of bytes of the scaled integer, for the widths that have one. -/
def physicalWidth? (t : DecimalType) : Option Nat :=
  if t.width = 0 then none
  else if t.width ≤ 4 then some 2
  else if t.width ≤ 9 then some 4
  else if t.width ≤ 18 then some 8
  else if t.width ≤ 38 then some 16
  else none

/-- The number of bytes of the scaled integer; a width of zero or above 38 has none. -/
def physicalWidth (t : DecimalType) : Except DecodeError Nat :=
  match t.physicalWidth? with
  | some width => .ok width
  | none => .error (.invalidDecimalWidth t.width.toNat)

theorem physicalWidth?_eq_some_iff {t : DecimalType} :
    (∃ w, t.physicalWidth? = some w) ↔ 1 ≤ t.width.toNat ∧ t.width.toNat ≤ 38 := by
  unfold physicalWidth?
  simp only [UInt8.le_iff_toNat_le, ← UInt8.toNat_inj]
  have h4 : (4 : UInt8).toNat = 4 := rfl
  have h9 : (9 : UInt8).toNat = 9 := rfl
  have h18 : (18 : UInt8).toNat = 18 := rfl
  have h38 : (38 : UInt8).toNat = 38 := rfl
  have h0 : (0 : UInt8).toNat = 0 := rfl
  rw [h0, h4, h9, h18, h38]
  split
  · simp; omega
  all_goals try split
  all_goals try split
  all_goals try split
  all_goals try split
  all_goals simp
  all_goals omega

end DecimalType

/-- A dictionary together with the index type that the engine reports for it. -/
structure EnumType where
  values : Array String
  internalType : TypeId
  deriving DecidableEq, Repr

namespace EnumType

/-- The unsigned integer type that can index a dictionary of `size` values. -/
def internalTypeFor (size : Nat) : TypeId :=
  if size ≤ 255 then .uTinyInt else if size ≤ 65535 then .uSmallInt else .uInteger

/-- The type over a dictionary with the index type its size calls for. -/
def ofValues (values : Array String) : EnumType := ⟨values, internalTypeFor values.size⟩

/-- The index type the size of the dictionary calls for, whatever is reported. -/
def derivedType (t : EnumType) : TypeId := internalTypeFor t.values.size

/-- The number of bytes of an index, which follows the size of the dictionary. -/
def indexWidth (t : EnumType) : Nat :=
  if t.values.size ≤ 255 then 1 else if t.values.size ≤ 65535 then 2 else 4

/-- The dictionary entry at `index`. -/
def value? (t : EnumType) (index : Nat) : Option String := t.values[index]?

/-- The first position of an entry. -/
def find? (t : EnumType) (value : String) : Option Nat := t.values.findIdx? (· == value)

end EnumType

/-- The type of a column. -/
inductive LogicalType where
  | fixed (kind : FixedKind)
  | string (kind : StringKind)
  | decimal (type : DecimalType)
  | enumeration (type : EnumType)
  | list (element : LogicalType)
  | struct (fields : List (String × LogicalType))
  | map (key value : LogicalType)
  | array (element : LogicalType) (length : UInt64)
  | union (alternatives : List (String × LogicalType))
  | other (id : TypeId)

namespace LogicalType

instance : Inhabited LogicalType := ⟨.other .invalid⟩

/-! ### Equality -/

mutual

/-- Whether two types are equal. -/
def beq : LogicalType → LogicalType → Bool
  | .fixed a, .fixed b => a == b
  | .string a, .string b => a == b
  | .decimal a, .decimal b => a == b
  | .enumeration a, .enumeration b => a == b
  | .list a, .list b => beq a b
  | .struct a, .struct b => beqFields a b
  | .map k v, .map k' v' => beq k k' && beq v v'
  | .array a n, .array b m => beq a b && n == m
  | .union a, .union b => beqFields a b
  | .other a, .other b => a == b
  | _, _ => false

/-- Whether two lists of named types are equal. -/
def beqFields : List (String × LogicalType) → List (String × LogicalType) → Bool
  | [], [] => true
  | (n, a) :: as, (m, b) :: bs => n == m && beq a b && beqFields as bs
  | _, _ => false

end

mutual

theorem eq_of_beq : (a b : LogicalType) → beq a b = true → a = b
  | .list a, b, h => by
    cases b with
    | list b => rw [eq_of_beq a b (by simpa [beq] using h)]
    | _ => simp [beq] at h
  | .struct a, b, h => by
    cases b with
    | struct b => rw [eq_of_beqFields a b (by simpa [beq] using h)]
    | _ => simp [beq] at h
  | .map k v, b, h => by
    cases b with
    | map k' v' =>
      simp only [beq, Bool.and_eq_true] at h
      rw [eq_of_beq k k' h.1, eq_of_beq v v' h.2]
    | _ => simp [beq] at h
  | .array a n, b, h => by
    cases b with
    | array b m =>
      simp only [beq, Bool.and_eq_true, beq_iff_eq] at h
      rw [eq_of_beq a b h.1, h.2]
    | _ => simp [beq] at h
  | .union a, b, h => by
    cases b with
    | union b => rw [eq_of_beqFields a b (by simpa [beq] using h)]
    | _ => simp [beq] at h
  | .fixed _, b, h | .string _, b, h | .decimal _, b, h | .enumeration _, b, h
  | .other _, b, h => by
    cases b <;> simp_all [beq]

theorem eq_of_beqFields :
    (as bs : List (String × LogicalType)) → beqFields as bs = true → as = bs
  | [], [], _ => rfl
  | (n, a) :: as, (m, b) :: bs, h => by
    simp only [beqFields, Bool.and_eq_true, beq_iff_eq] at h
    rw [h.1.1, eq_of_beq a b h.1.2, eq_of_beqFields as bs h.2]
  | [], _ :: _, h | _ :: _, [], h => by simp [beqFields] at h

end

mutual

theorem beq_self : (a : LogicalType) → beq a a = true
  | .list a => by simp [beq, beq_self a]
  | .struct a => by simp [beq, beqFields_self a]
  | .map k v => by simp [beq, beq_self k, beq_self v]
  | .array a _ => by simp [beq, beq_self a]
  | .union a => by simp [beq, beqFields_self a]
  | .fixed _ | .string _ | .decimal _ | .enumeration _ | .other _ => by simp [beq]

theorem beqFields_self : (as : List (String × LogicalType)) → beqFields as as = true
  | [] => rfl
  | (_, a) :: as => by simp [beqFields, beq_self a, beqFields_self as]

end

theorem beq_eq_true_iff {a b : LogicalType} : beq a b = true ↔ a = b :=
  ⟨eq_of_beq a b, fun h ↦ h ▸ beq_self a⟩

instance : DecidableEq LogicalType := fun _ _ ↦ decidable_of_iff _ beq_eq_true_iff

/-! ### Parts of a type -/

/-- The identifier of the type. -/
def typeId : LogicalType → TypeId
  | .fixed kind => kind.typeId
  | .string kind => kind.typeId
  | .decimal _ => .decimal
  | .enumeration _ => .enumeration
  | .list _ => .list
  | .struct _ => .struct
  | .map _ _ => .map
  | .array _ _ => .array
  | .union _ => .union
  | .other id => id

/-- Whether values of the type are made of child columns. -/
def isNested : LogicalType → Bool
  | .list _ | .struct _ | .map _ _ | .array _ _ | .union _ => true
  | .fixed _ | .string _ | .decimal _ | .enumeration _ | .other _ => false

/-- The type an identifier determines by itself; decimals, enumerations and nested types take
parameters. -/
def ofTypeId? : TypeId → Option LogicalType
  | .boolean => some (.fixed .boolean)
  | .tinyInt => some (.fixed (.integer .tinyInt))
  | .smallInt => some (.fixed (.integer .smallInt))
  | .integer => some (.fixed (.integer .integer))
  | .bigInt => some (.fixed (.integer .bigInt))
  | .uTinyInt => some (.fixed (.integer .uTinyInt))
  | .uSmallInt => some (.fixed (.integer .uSmallInt))
  | .uInteger => some (.fixed (.integer .uInteger))
  | .uBigInt => some (.fixed (.integer .uBigInt))
  | .hugeInt => some (.fixed (.integer .hugeInt))
  | .uHugeInt => some (.fixed (.integer .uHugeInt))
  | .float => some (.fixed .float)
  | .double => some (.fixed .double)
  | .date => some (.fixed (.temporal .date))
  | .time => some (.fixed (.temporal .time))
  | .timestamp => some (.fixed (.temporal .timestamp))
  | .timestampS => some (.fixed (.temporal .timestampS))
  | .timestampMs => some (.fixed (.temporal .timestampMs))
  | .timestampNs => some (.fixed (.temporal .timestampNs))
  | .timestampTz => some (.fixed (.temporal .timestampTz))
  | .timeTz => some (.fixed .timeTz)
  | .interval => some (.fixed .interval)
  | .uuid => some (.fixed .uuid)
  | .varchar => some (.string .varchar)
  | .blob => some (.string .blob)
  | .bit => some (.string .bit)
  | .invalid => some (.other .invalid)
  | .any => some (.other .any)
  | .varInt => some (.other .varInt)
  | .sqlNull => some (.other .sqlNull)
  | .decimal | .enumeration | .list | .struct | .map | .array | .union => none

theorem typeId_of_ofTypeId? {id : TypeId} {t : LogicalType} (h : ofTypeId? id = some t) :
    t.typeId = id := by
  cases id <;> simp [ofTypeId?] at h <;> subst h <;> rfl

/-- The position of the first of the named types called `name`. -/
def findField? (fields : List (String × LogicalType)) (name : String) : Option Nat :=
  fields.findIdx? (·.1 == name)

/-- The unsigned byte, the type of the tags of a union. -/
abbrev tagType : LogicalType := .fixed (.integer .uTinyInt)

/-- The fields of an entry of a map. -/
def mapEntry (key value : LogicalType) : List (String × LogicalType) :=
  [("key", key), ("value", value)]

/-- The fields of the struct that stores a union: the tag, then the alternatives. An alternative may
be called `tag` as well. -/
def unionMembers (alternatives : List (String × LogicalType)) : List (String × LogicalType) :=
  ("tag", tagType) :: alternatives

mutual

/-- The number of levels of a type. A map has two levels above its key and value. -/
def depth : LogicalType → Nat
  | .list element => 1 + element.depth
  | .array element _ => 1 + element.depth
  | .map key value => 1 + (1 + max key.depth value.depth)
  | .struct fields => 1 + maxDepth fields
  | .union alternatives => 1 + maxDepth alternatives
  | .fixed _ | .string _ | .decimal _ | .enumeration _ | .other _ => 1

/-- The number of levels of the deepest of the named types. -/
def maxDepth : List (String × LogicalType) → Nat
  | [] => 0
  | (_, t) :: rest => max t.depth (maxDepth rest)

end

/-! ### Induction -/

/-- Induction over types, where the fields of a struct and the alternatives of a union are given as
members of the list. -/
@[elab_as_elim]
theorem inductionOn {motive : LogicalType → Prop} (t : LogicalType)
    (fixed : ∀ kind, motive (.fixed kind)) (string : ∀ kind, motive (.string kind))
    (decimal : ∀ type, motive (.decimal type)) (enumeration : ∀ type, motive (.enumeration type))
    (list : ∀ element, motive element → motive (.list element))
    (struct : ∀ fields, (∀ f ∈ fields, motive f.2) → motive (.struct fields))
    (map : ∀ key value, motive key → motive value → motive (.map key value))
    (array : ∀ element length, motive element → motive (.array element length))
    (union : ∀ alternatives, (∀ a ∈ alternatives, motive a.2) → motive (.union alternatives))
    (other : ∀ id, motive (.other id)) : motive t :=
  LogicalType.rec (motive_1 := motive) (motive_2 := fun fields ↦ ∀ f ∈ fields, motive f.2)
    (motive_3 := fun f ↦ motive f.2) fixed string decimal enumeration list struct map array union
    other (by simp) (fun _ _ h ih ↦ by simpa using ⟨h, by simpa using ih⟩) (fun _ _ h ↦ h) t

end LogicalType

end Columnar
