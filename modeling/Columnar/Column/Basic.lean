import Columnar.Value.Basic

/-!
# Columns

A column is a window over a `Layout`, the tree of buffers that its rows are decoded from. Windows
nest: the elements of a list, the fields of a struct and the alternatives of a union are columns
themselves, with windows of their own, and narrowing a column never touches what is below it. Row
`i` of a struct that starts at row `start` is row `start + i` of each of its fields; the elements
of a list are where its entry says, whatever the window of the list.

The type of a column is computed from its layout (`Layout.type`), so a layout is well typed by
construction wherever it does not repeat a type that its children have already.
-/

namespace Columnar

/-- The buffers of a column, by the kind of type they hold. -/
inductive Layout where
  | fixed (kind : FixedKind) (slots : Slots)
  | string (kind : StringKind) (slots : Slots) (heap : Heap)
  /-- Scaled integers in the first `width` bytes of their slots. -/
  | decimal (type : DecimalType) (width : Nat) (slots : Slots)
  /-- Dictionary indices in the first `width` bytes of their slots. -/
  | enumeration (type : EnumType) (width : Nat) (slots : Slots)
  /-- Slots with the place of every list among the rows of `child`. -/
  | list (slots : Slots) (child : Window Layout)
  | struct (words : Bitmap) (fields : List (String × Window Layout))
  /-- Slots with the place of every map among the rows of `child`, which are structs of a key and a
  value. -/
  | map (key value : LogicalType) (slots : Slots) (child : Window Layout)
  /-- Arrays of `length` rows of `child` each, one after the other. -/
  | array (length : UInt64) (words : Bitmap) (child : Window Layout)
  | union (words : Bitmap) (tags : SlotWindow) (alternatives : List (String × Window Layout))

/-- A run of rows of a layout. -/
abbrev Column := Window Layout

namespace Layout

instance : Inhabited Layout := ⟨.struct none []⟩

mutual

/-- The type of the rows. -/
def type : Layout → LogicalType
  | .fixed kind _ => .fixed kind
  | .string kind _ _ => .string kind
  | .decimal t _ _ => .decimal t
  | .enumeration t _ _ => .enumeration t
  | .list _ ⟨child, _, _⟩ => .list child.type
  | .struct _ fields => .struct (fieldTypes fields)
  | .map key value _ _ => .map key value
  | .array length _ ⟨child, _, _⟩ => .array child.type length
  | .union _ _ alternatives => .union (fieldTypes alternatives)

/-- The types of named columns. -/
def fieldTypes : List (String × Window Layout) → List (String × LogicalType)
  | [] => []
  | (name, ⟨layout, _, _⟩) :: rest => (name, layout.type) :: fieldTypes rest

end

/-- Whether row `row` of the buffers is valid. A row of a union is so if its tag is, too. -/
def isValid (layout : Layout) (row : Nat) : Bool :=
  match layout with
  | .fixed _ slots | .string _ slots _ | .decimal _ _ slots | .enumeration _ _ slots
  | .list slots _ | .map _ _ slots _ => slots.words.isValid row
  | .struct words _ | .array _ words _ => words.isValid row
  | .union words tags _ => words.isValid row && tags.content.words.isValid (tags.start + row)

/-- Induction over layouts, where the fields of a struct and the alternatives of a union are given
as members of the list. -/
@[elab_as_elim]
theorem inductionOn {motive : Layout → Prop} (layout : Layout)
    (fixed : ∀ kind slots, motive (.fixed kind slots))
    (string : ∀ kind slots heap, motive (.string kind slots heap))
    (decimal : ∀ type width slots, motive (.decimal type width slots))
    (enumeration : ∀ type width slots, motive (.enumeration type width slots))
    (list : ∀ slots child, motive child.content → motive (.list slots child))
    (struct : ∀ words fields, (∀ f ∈ fields, motive f.2.content) → motive (.struct words fields))
    (map : ∀ key value slots child, motive child.content → motive (.map key value slots child))
    (array : ∀ length words child, motive child.content → motive (.array length words child))
    (union : ∀ words tags alternatives, (∀ a ∈ alternatives, motive a.2.content) →
      motive (.union words tags alternatives)) : motive layout :=
  Layout.rec (motive_1 := motive) (motive_2 := fun w ↦ motive w.content)
    (motive_3 := fun fields ↦ ∀ f ∈ fields, motive f.2.content)
    (motive_4 := fun f ↦ motive f.2.content) fixed string decimal enumeration list struct map array
    union (fun _ _ _ h ↦ h) (by simp) (fun _ _ h ih ↦ by simpa using ⟨h, by simpa using ih⟩)
    (fun _ _ h ↦ h) layout

theorem fieldTypes_eq_map (fields : List (String × Window Layout)) :
    fieldTypes fields = fields.map fun f ↦ (f.1, f.2.content.type) := by
  induction fields with
  | nil => rfl
  | cons f rest ih => obtain ⟨name, layout, start, len⟩ := f; simp [fieldTypes, ih]

end Layout

namespace Column

/-- The type of the rows. -/
def type (c : Column) : LogicalType := c.content.type

/-- The name of the class of the column, which its type has without its parameters. -/
def className (c : Column) : String := c.type.typeId.name

/-- Whether row `i` is valid. Rows outside of the column are not refused. -/
def isValid (c : Column) (i : Nat) : Bool := c.content.isValid (c.start + i)

end Column

end Columnar
