import Columnar.Column.Make

/-!
# Extents of columns

What the readers of a column rely on and never check: every window lies within the buffers it is a
window of. A layout *fits* a number of rows (`Layout.Fits`) if its own buffers have a place for each
of them; this says nothing about the columns inside. `Layout.Everywhere` spreads a property of a
layout and its number of rows over all columns inside, where a column inside is asked about all rows
up to the end of its window. `Layout.Holds` is fitting everywhere, and `Column.Within` says it of the
window of a column, together with a bound on the numbers of rows.

Fewer rows ask for less (`Layout.Everywhere.mono`), which is all that narrowing a window needs.
`Window.narrow` is `Window.slice` without the check.
-/

namespace Columnar

namespace Window

variable {α : Type} {w : Window α}

/-- The `count` rows from `offset` on, of which there may be fewer. -/
def narrow (w : Window α) (offset count : Nat) : Window α := ⟨w.content, w.start + offset, count⟩

theorem slice_eq_ok_narrow {offset count : Nat} (h : offset + count ≤ w.len) :
    w.slice offset count = .ok (w.narrow offset count) :=
  slice_of_le h

@[simp] theorem narrow_content (w : Window α) (offset count : Nat) :
    (w.narrow offset count).content = w.content := rfl

@[simp] theorem narrow_start (w : Window α) (offset count : Nat) :
    (w.narrow offset count).start = w.start + offset := rfl

@[simp] theorem narrow_len (w : Window α) (offset count : Nat) :
    (w.narrow offset count).len = count := rfl

theorem narrow_narrow (w : Window α) (a b c d : Nat) :
    (w.narrow a b).narrow c d = w.narrow (a + c) d := by
  simp [narrow, Nat.add_assoc]

theorem checkRange_of_le {len offset count : Nat} (h : offset + count ≤ len) :
    checkRange len offset count = .ok () :=
  checkRange_eq_ok_iff.2 h

end Window

/-- Row `row` of `width` things each ends where all `rows` rows do, or before. -/
theorem mul_add_le_mul {row rows : Nat} (h : row < rows) (width : Nat) :
    row * width + width ≤ rows * width := by
  rw [← Nat.add_one_mul]
  exact Nat.mul_le_mul_right width h

/-- The buffer has a slot for each of the first `rows` rows, and their bytes can be counted. -/
def Slots.Holds (s : Slots) (rows : Nat) : Prop :=
  rows * s.width ≤ s.data.size ∧ rows * s.width < Chunk.sizeLimit

theorem Slots.Holds.mono {s : Slots} {rows fewer : Nat} (h : s.Holds rows) (hle : fewer ≤ rows) :
    s.Holds fewer := by
  have hmul : fewer * s.width ≤ rows * s.width := Nat.mul_le_mul_right _ hle
  exact ⟨by have := h.1; omega, by have := h.2; omega⟩

/-- Where a slot ends is a machine word. -/
theorem Slots.Holds.row_lt {s : Slots} {row rows : Nat} (h : s.Holds rows) (hrow : row < rows) :
    row * s.width + s.width < Chunk.sizeLimit :=
  Nat.lt_of_le_of_lt (mul_add_le_mul hrow s.width) h.2

namespace Layout

/-- The columns directly inside. The tags of a union are one of them. -/
def windows : Layout → List Column
  | .fixed .. | .string .. | .decimal .. | .enumeration .. => []
  | .list _ child | .map _ _ _ child | .array _ _ child => [child]
  | .struct _ fields => fields.map (·.2)
  | .union _ tags alternatives =>
    Column.ofFixed (.integer .uTinyInt) tags :: alternatives.map (·.2)

/-- The buffers have a place for each of the first `rows` rows. The rows of a list are anywhere in
its child, so nothing is asked of the child here. -/
def Fits : Layout → Nat → Prop
  | .fixed kind slots, rows => kind.width ≤ slots.width ∧ slots.Holds rows
  | .string _ slots _, rows => slots.width = StringSlot.width ∧ slots.Holds rows
  | .decimal t width slots, rows =>
    t.physicalWidth? = some width ∧ slots.width = width ∧ slots.Holds rows
  | .enumeration t width slots, rows =>
    width = t.indexWidth ∧ slots.width = width ∧ slots.Holds rows
  | .list slots _, rows => slots.width = entryWidth ∧ slots.Holds rows
  | .map key value slots child, rows =>
    slots.width = entryWidth ∧ slots.Holds rows ∧
      child.content.type = .struct (LogicalType.mapEntry key value)
  | .struct _ fields, rows => ∀ f ∈ fields, rows ≤ f.2.len
  | .array length _ child, rows =>
    rows * length.toNat ≤ child.len ∧ rows * length.toNat < Chunk.sizeLimit
  | .union _ tags alternatives, rows => rows ≤ tags.len ∧ ∀ a ∈ alternatives, rows ≤ a.2.len

theorem Fits.mono {layout : Layout} {rows fewer : Nat} (h : layout.Fits rows)
    (hle : fewer ≤ rows) : layout.Fits fewer := by
  cases layout with
  | fixed kind slots => exact ⟨h.1, h.2.mono hle⟩
  | string kind slots heap => exact ⟨h.1, h.2.mono hle⟩
  | decimal t width slots => exact ⟨h.1, h.2.1, h.2.2.mono hle⟩
  | enumeration t width slots => exact ⟨h.1, h.2.1, h.2.2.mono hle⟩
  | list slots child => exact ⟨h.1, h.2.mono hle⟩
  | map key value slots child => exact ⟨h.1, h.2.1.mono hle, h.2.2⟩
  | struct words fields => exact fun f hf ↦ Nat.le_trans hle (h f hf)
  | array length words child =>
    have hmul : fewer * length.toNat ≤ rows * length.toNat := Nat.mul_le_mul_right _ hle
    exact ⟨Nat.le_trans hmul h.1, Nat.lt_of_le_of_lt hmul h.2⟩
  | union words tags alternatives =>
    exact ⟨Nat.le_trans hle h.1, fun a ha ↦ Nat.le_trans hle (h.2 a ha)⟩

/-- The property holds of the layout with its number of rows, and so of every column inside with all
rows up to the end of its window. -/
inductive Everywhere (P : Layout → Nat → Prop) : Layout → Nat → Prop where
  | intro {layout : Layout} {rows : Nat} (here : P layout rows)
      (inside : ∀ w ∈ layout.windows, Everywhere P w.content (w.start + w.len)) :
      Everywhere P layout rows

namespace Everywhere

variable {P Q : Layout → Nat → Prop} {layout : Layout} {rows fewer : Nat}

theorem here (h : Everywhere P layout rows) : P layout rows := by
  cases h with | intro here _ => exact here

theorem inside (h : Everywhere P layout rows) {w : Column} (hw : w ∈ layout.windows) :
    Everywhere P w.content (w.start + w.len) := by
  cases h with | intro _ inside => exact inside w hw

/-- A property that fewer rows have as well holds everywhere of fewer rows. -/
theorem mono (hP : ∀ {layout rows fewer}, P layout rows → fewer ≤ rows → P layout fewer)
    (h : Everywhere P layout rows) (hle : fewer ≤ rows) : Everywhere P layout fewer :=
  .intro (hP h.here hle) fun _ hw ↦ h.inside hw

theorem imp (hPQ : ∀ {layout rows}, P layout rows → Q layout rows)
    (h : Everywhere P layout rows) : Everywhere Q layout rows := by
  induction h with
  | intro here _ ih => exact .intro (hPQ here) ih

end Everywhere

/-- All buffers, of the layout and of the columns inside, have a place for each row. -/
def Holds : Layout → Nat → Prop := Everywhere Fits

/-- The numbers that are computed on the way to row `row` of the buffers are machine words. -/
def Counted (layout : Layout) (row : Nat) : Prop :=
  row < Chunk.sizeLimit ∧
    match layout with
    | .fixed _ slots | .string _ slots _ | .decimal _ _ slots | .enumeration _ _ slots
    | .list slots _ | .map _ _ slots _ => row * slots.width + slots.width < Chunk.sizeLimit
    | .struct _ fields => ∀ f ∈ fields, f.2.start + row < Chunk.sizeLimit
    | .array length _ child =>
      child.start + (row * length.toNat + length.toNat) < Chunk.sizeLimit
    | .union _ tags alternatives =>
      (tags.start + row) * tags.content.width + tags.content.width < Chunk.sizeLimit ∧
        ∀ a ∈ alternatives, a.2.start + row < Chunk.sizeLimit

end Layout

namespace Column

/-- The window lies within its buffers, and so do the windows of all columns inside; the numbers of
rows are all `ok`. -/
def Within (ok : Nat → Prop) (c : Column) : Prop :=
  c.content.Everywhere (fun layout rows ↦ layout.Fits rows ∧ ok rows) (c.start + c.len)

namespace Within

variable {ok : Nat → Prop} {c : Column}

theorem holds (h : c.Within ok) : c.content.Holds (c.start + c.len) :=
  Layout.Everywhere.imp And.left h

theorem inside (h : c.Within ok) {w : Column} (hw : w ∈ c.content.windows) : w.Within ok :=
  Layout.Everywhere.inside h hw

theorem narrow (hok : ∀ {n m}, ok n → m ≤ n → ok m) (h : c.Within ok) {offset count : Nat}
    (hle : offset + count ≤ c.len) : Within ok (c.narrow offset count) := by
  refine Layout.Everywhere.mono (fun h hle ↦ ⟨h.1.mono hle, hok h.2 hle⟩) h ?_
  show c.start + offset + count ≤ c.start + c.len
  omega

/-- Numbers of rows being machine words, so are all numbers on the way to a row. -/
theorem counted (h : c.Within (· < Chunk.sizeLimit)) {i : Nat} (hi : i < c.len) :
    c.content.Counted (c.start + i) := by
  obtain ⟨layout, start, len⟩ := c
  obtain ⟨hfits, hrows⟩ := h.here
  have hrow : start + i < start + len := Nat.add_lt_add_left hi start
  change start + len < Chunk.sizeLimit at hrows
  show (layout.Counted (start + i))
  refine ⟨Nat.lt_trans hrow hrows, ?_⟩
  cases layout with
  | fixed kind slots => exact hfits.2.row_lt hrow
  | string kind slots heap => exact hfits.2.row_lt hrow
  | decimal t width slots => exact hfits.2.2.row_lt hrow
  | enumeration t width slots => exact hfits.2.2.row_lt hrow
  | list slots child => exact hfits.2.row_lt hrow
  | map key value slots child => exact hfits.2.1.row_lt hrow
  | struct words fields =>
    intro f hf
    have hle : start + len ≤ f.2.len := hfits f hf
    have hend : f.2.start + f.2.len < Chunk.sizeLimit :=
      (h.inside (w := f.2) (List.mem_map_of_mem hf)).here.2
    show f.2.start + (start + i) < Chunk.sizeLimit
    omega
  | array length words child =>
    -- The elements of the row end within the child, which ends at a machine word.
    have hle := mul_add_le_mul hrow length.toNat
    have hall : (start + len) * length.toNat ≤ child.len := hfits.1
    have hend : child.start + child.len < Chunk.sizeLimit :=
      (h.inside (w := child) (by simp [Layout.windows])).here.2
    show child.start + ((start + i) * length.toNat + length.toNat) < Chunk.sizeLimit
    omega
  | union words tags alternatives =>
    have htags : start + len ≤ tags.len := hfits.1
    have hholds : tags.content.Holds (tags.start + tags.len) :=
      (h.inside (w := ofFixed (.integer .uTinyInt) tags) (by simp [Layout.windows])).here.1.2
    have htag : tags.start + (start + i) < tags.start + tags.len := by omega
    refine ⟨hholds.row_lt htag, fun a ha ↦ ?_⟩
    have hle : start + len ≤ a.2.len := hfits.2 a ha
    have hend : a.2.start + a.2.len < Chunk.sizeLimit :=
      (h.inside (w := a.2) (List.mem_cons_of_mem _ (List.mem_map_of_mem ha))).here.2
    show a.2.start + (start + i) < Chunk.sizeLimit
    omega

end Within

end Column

end Columnar
