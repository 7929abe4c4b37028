import Columnar.Proofs.Extent
import Columnar.Proofs.Outcome

/-!
# Rows of columns that lie within their buffers

Reading a row of a layout that holds enough rows. None of the checks on the way can fail then, no
byte is cut out from beyond a buffer or a slot (`Layout.Holds.supplies`), and what is left of the
reader is short: a row that is not valid is null (`Layout.isValid`), and a valid one is what
`Layout.readValid` says (`Layout.read_eq`). Everything that is proved about rows is proved about
`readValid`, one case for each kind of layout.
-/

namespace Columnar

namespace Slots

/-- The bytes of slot `row`, of which there are fewer if the buffer is too short. -/
def bytes (s : Slots) (row : Nat) : List UInt8 :=
  (s.data.extract (row * s.width) (row * s.width + s.width)).toList

variable {s : Slots} {rows start len i : Nat}

theorem slot_of_holds (h : s.Holds rows) (hi : i < rows) : s.slot i = .ok (s.bytes i) := by
  have hle : i * s.width + s.width ≤ s.data.size := Nat.le_trans (mul_add_le_mul hi s.width) h.1
  simp only [slot, Outcome.assert_eq_ok_iff.2 (decide_eq_true hle), ok_bind]
  rfl

/-- A row in range has the bytes of its slot, unless it is null. -/
theorem get_bind_of_holds {α : Type} (h : s.Holds rows) (hrows : start + len ≤ rows) (hi : i < len)
    (f : Option (List UInt8) → Outcome α) :
    (s.get start len i >>= f) =
      if s.words.isValid (start + i) then f (some (s.bytes (start + i))) else f none := by
  rw [get, Outcome.assert_eq_ok_iff.2 (decide_eq_true hi), ok_bind,
    slot_of_holds h (show start + i < rows by omega)]
  split <;> rfl

theorem length_bytes (h : s.Holds rows) (hi : i < rows) : (s.bytes i).length = s.width := by
  have hle : i * s.width + s.width ≤ s.data.size := Nat.le_trans (mul_add_le_mul hi s.width) h.1
  simp only [bytes, Array.length_toList, Array.size_extract]
  omega

/-- A slot has the bytes of a value if it is as wide as one. -/
theorem le_length_bytes {width : Nat} (h : s.Holds rows) (hi : i < rows) (hle : width ≤ s.width) :
    width ≤ (s.bytes i).length :=
  (length_bytes h hi).symm ▸ hle

end Slots

/-! ### Entries of maps -/

/-- The pair that entry `entry` of the map in row `row` is, from the struct it is stored as. -/
def pairOf (row entry : Nat) : Value → Outcome (Value × Value)
  | .struct [(_, key), (_, value)] => .ok (key, value)
  | _ => Outcome.refuse (.nullMapEntry row entry)

theorem pairOf_eq_ok_iff {row entry : Nat} {v : Value} {pair : Value × Value} :
    pairOf row entry v = .ok pair ↔
      ∃ keyName valueName, v = .struct [(keyName, pair.1), (valueName, pair.2)] := by
  obtain ⟨key, value⟩ := pair
  unfold pairOf
  split <;> simp_all [Outcome.refuse]

namespace Layout

/-- The slot of row `row` lies within its buffer, and what is cut out of the slot within the slot. A
string that lies in its slot begins behind the four bytes of its length. -/
def Supplies (layout : Layout) (row : Nat) : Prop :=
  match layout with
  | .fixed kind slots => kind.width ≤ (slots.bytes row).length
  | .string _ slots _ =>
    (slots.bytes row).length = StringSlot.width ∧
      (StringSlot.isInline (slots.bytes row) →
        4 + StringSlot.length (slots.bytes row) ≤ StringSlot.width)
  | .decimal _ width slots | .enumeration _ width slots => (slots.bytes row).length = width
  | .list slots _ | .map _ _ slots _ => (slots.bytes row).length = entryWidth
  | .struct .. | .array .. => True
  | .union _ tags _ => 1 ≤ (tags.content.bytes (tags.start + row)).length

theorem Holds.supplies {layout : Layout} {rows row : Nat} (h : layout.Holds rows)
    (hrow : row < rows) : layout.Supplies row := by
  have hfits := h.here
  cases layout with
  | fixed kind slots => exact Slots.le_length_bytes hfits.2 hrow hfits.1
  | string kind slots heap =>
    refine ⟨(Slots.length_bytes hfits.2 hrow).trans hfits.1, fun hinline ↦ ?_⟩
    exact Nat.add_le_add_left (of_decide_eq_true hinline) 4
  | decimal type width slots => exact (Slots.length_bytes hfits.2.2 hrow).trans hfits.2.1
  | enumeration type width slots => exact (Slots.length_bytes hfits.2.2 hrow).trans hfits.2.1
  | list slots child => exact (Slots.length_bytes hfits.2 hrow).trans hfits.1
  | map key value slots child => exact (Slots.length_bytes hfits.2.1 hrow).trans hfits.1
  | struct words fields => exact trivial
  | array length words child => exact trivial
  | union words tags alternatives =>
    have htags := (h.inside (w := Column.ofFixed (.integer .uTinyInt) tags) (by simp [windows])).here
    have htag : tags.start + row < tags.start + tags.len :=
      Nat.add_lt_add_left (Nat.lt_of_lt_of_le hrow hfits.1) _
    exact Slots.le_length_bytes htags.2 htag htags.1

/-! ### Fields and alternatives -/

theorem readFields_of_le {fields : List (String × Column)} {start len i : Nat}
    (h : ∀ f ∈ fields, start + len ≤ f.2.len) (hi : i < len) :
    readFields fields start len i =
      fields.mapM fun f ↦ (f.1, ·) <$> Column.get (f.2.narrow start len) i := by
  induction fields with
  | nil => rfl
  | cons f fields ih =>
    obtain ⟨name, layout, fieldStart, fieldLen⟩ := f
    have hf : start + len ≤ fieldLen := h (name, ⟨layout, fieldStart, fieldLen⟩) (by simp)
    rw [readFields, Window.checkRange_of_le hf, ok_bind, Window.checkRow_of_lt hi, ok_bind,
      List.mapM_cons, ih fun f hf ↦ h f (by simp [hf])]
    simp only [Column.get, Window.narrow, map_eq_pure_bind, bind_assoc, pure_bind]

theorem readAlternative_of_le {alternatives : List (String × Column)} {tag start len i : Nat}
    {absent : DecodeError} (h : ∀ a ∈ alternatives, start + len ≤ a.2.len) (hi : i < len) :
    readAlternative alternatives tag absent start len i =
      match alternatives[tag]? with
      | none => Outcome.refuse absent
      | some a => .union a.1 <$> Column.get (a.2.narrow start len) i := by
  induction alternatives generalizing tag with
  | nil => rfl
  | cons a alternatives ih =>
    obtain ⟨name, layout, memberStart, memberLen⟩ := a
    cases tag with
    | zero =>
      have ha : start + len ≤ memberLen := h (name, ⟨layout, memberStart, memberLen⟩) (by simp)
      rw [readAlternative, Window.checkRange_of_le ha, ok_bind, Window.checkRow_of_lt hi, ok_bind]
      rfl
    | succ tag =>
      rw [readAlternative, ih fun a ha ↦ h a (by simp [ha])]
      rfl

/-! ### Valid rows -/

/-- The value of row `i`, which is valid, of the window of `len` rows from `start` on, for a layout
that holds them all. -/
def readValid (layout : Layout) (start len i : Nat) : Outcome Value :=
  match layout with
  | .fixed kind slots => .ok (kind.decode (slots.bytes (start + i)))
  | .string kind slots heap =>
    match StringSlot.payload? heap (slots.bytes (start + i)) with
    | none => .ok .null
    | some bytes => kind.decode i bytes
  | .decimal t width slots =>
    .ok (.decimal ⟨LittleEndian.toInt ((slots.bytes (start + i)).take width), t.width, t.scale⟩)
  | .enumeration t width slots =>
    t.decode (LittleEndian.toNat ((slots.bytes (start + i)).take width))
  | .list slots child => do
    let (offset, count) ← entryRange (slots.bytes (start + i)) child.len
    return .list (Column.type child) count fun j ↦ Column.get (child.narrow offset count) j
  | .struct _ fields =>
    .struct <$> fields.mapM fun f ↦ (f.1, ·) <$> Column.get (f.2.narrow start len) i
  | .map _ _ slots child => do
    let (offset, count) ← entryRange (slots.bytes (start + i)) child.len
    .map <$> Outcome.collect count fun j ↦ do pairOf i j (← Column.get (child.narrow offset count) j)
  | .array length _ child =>
    .ok <| .array (Column.type child) length.toNat fun j ↦
      Column.get (child.narrow ((start + i) * length.toNat) length.toNat) j
  | .union _ tags alternatives =>
    let tag := tagOf (tags.content.bytes (tags.start + (start + i)))
    match alternatives[tag]? with
    | none => Outcome.refuse (.invalidDiscriminant tag alternatives.length)
    | some a => .union a.1 <$> Column.get (a.2.narrow start len) i

theorem entryRange_eq_ok_iff {slot : List UInt8} {rows offset count : Nat} :
    entryRange slot rows = .ok (offset, count) ↔
      entryOf slot = (offset, count) ∧ offset + count ≤ rows := by
  rcases h : entryOf slot with ⟨o, c⟩
  simp only [entryRange, h, bind_eq_ok_iff, Outcome.require_eq_ok, exists_const, decide_eq_true_eq,
    pure_eq_ok, Except.ok.injEq, Prod.mk.injEq]
  constructor
  · rintro ⟨hle, rfl, rfl⟩
    exact ⟨⟨rfl, rfl⟩, hle⟩
  · rintro ⟨⟨rfl, rfl⟩, hle⟩
    exact ⟨hle, rfl, rfl⟩

theorem entryRange_unbroken {slot : List UInt8} {rows : Nat} :
    (entryRange slot rows).Unbroken :=
  (Outcome.unbroken_require _ _).bind fun _ _ ↦ Outcome.unbroken_ok _

section ReadEq

variable {rows start len i : Nat}

/-- The elements of a list in range are where its slot says, unless it is null. -/
theorem listRange_bind_of_holds {α : Type} {slots : Slots} {childLen : Nat} (h : slots.Holds rows)
    (hrows : start + len ≤ rows) (hi : i < len) (f : Option (Nat × Nat) → Outcome α) :
    (listRange slots start len i childLen >>= f) =
      if slots.words.isValid (start + i) then
        entryRange (slots.bytes (start + i)) childLen >>= fun r ↦ f (some r)
      else f none := by
  rw [listRange, Slots.get_bind_of_holds h hrows hi]
  split
  · simp only [bind_assoc, pure_bind]
  · rfl

theorem read_struct {words : Bitmap} {fields : List (String × Column)}
    (h : ∀ f ∈ fields, rows ≤ f.2.len) (hrows : start + len ≤ rows) (hi : i < len) :
    (Layout.struct words fields).read start len i =
      if words.isValid (start + i) then (Layout.struct words fields).readValid start len i
      else .ok .null := by
  have hfields : ∀ f ∈ fields, start + len ≤ f.2.len := fun f hf ↦ Nat.le_trans hrows (h f hf)
  rw [read, Outcome.assert_eq_ok_iff.2 (decide_eq_true hi), ok_bind, readFields_of_le hfields hi,
    readValid]
  split
  · rw [map_eq_pure_bind]
  · rfl

/-- Two fields read one after the other are the struct of them, taken apart. -/
theorem pairOf_read {words : Bitmap} {keys values : Column} {keyName valueName : String}
    {row : Nat} (hkeys : rows ≤ keys.len) (hvalues : rows ≤ values.len) (hrows : start + len ≤ rows)
    (hi : i < len) :
    ((Layout.struct words [(keyName, keys), (valueName, values)]).read start len i >>=
        pairOf row i) =
      if words.isValid (start + i) then do
        return (← Column.get (keys.narrow start len) i, ← Column.get (values.narrow start len) i)
      else Outcome.refuse (.nullMapEntry row i) := by
  have hfields : ∀ f ∈ [(keyName, keys), (valueName, values)], rows ≤ f.2.len := by
    simp [hkeys, hvalues]
  rw [read_struct hfields hrows hi, readValid]
  split
  · simp only [List.mapM_cons, List.mapM_nil, map_eq_pure_bind, bind_assoc, pure_bind, pairOf]
    rfl
  · rfl

/-- The rows of a map are structs of two columns. -/
theorem eq_struct_of_type {layout : Layout} {key value : LogicalType}
    (h : layout.type = .struct (LogicalType.mapEntry key value)) :
    ∃ words keys values, layout = .struct words [("key", keys), ("value", values)] ∧
      Column.type keys = key ∧ Column.type values = value := by
  cases layout with
  | struct words fields =>
    have htypes := LogicalType.struct.inj h
    rw [fieldTypes_eq_map, LogicalType.mapEntry, List.map_eq_cons_iff] at htypes
    obtain ⟨⟨_, keys⟩, rest, rfl, hkey, hrest⟩ := htypes
    obtain ⟨⟨_, values⟩, rest, rfl, hvalue, hrest⟩ := List.map_eq_cons_iff.1 hrest
    obtain rfl := List.map_eq_nil_iff.1 hrest
    obtain ⟨rfl, hkey⟩ := Prod.mk.inj hkey
    obtain ⟨rfl, hvalue⟩ := Prod.mk.inj hvalue
    exact ⟨words, keys, values, rfl, hkey, hvalue⟩
  | _ => simp [type] at h

/-- The elements of row `row` of arrays are rows of the child. -/
theorem array_row_le {length : UInt64} {words : Bitmap} {child : Column} {row : Nat}
    (h : (Layout.array length words child).Fits rows) (hrow : row < rows) :
    row * length.toNat + length.toNat ≤ child.len :=
  Nat.le_trans (mul_add_le_mul hrow length.toNat) h.1

theorem read_map {key value : LogicalType} {slots : Slots} {child : Column}
    (h : (Layout.map key value slots child).Holds rows) (hrows : start + len ≤ rows) (hi : i < len) :
    (Layout.map key value slots child).read start len i =
      if slots.words.isValid (start + i) then (Layout.map key value slots child).readValid start len i
      else .ok .null := by
  obtain ⟨-, hholds, htype⟩ := h.here
  obtain ⟨words, keys, values, hstruct, -, -⟩ := eq_struct_of_type htype
  have hinside : ∀ f ∈ [("key", keys), ("value", values)],
      child.start + child.len ≤ Window.len f.2 := by
    have := (h.inside (w := child) (by simp [windows])).here
    rwa [hstruct] at this
  obtain ⟨child, childStart, childLen⟩ := child
  obtain ⟨keys, keyStart, keyLen⟩ := keys
  obtain ⟨values, valueStart, valueLen⟩ := values
  obtain rfl : child = _ := hstruct
  rw [read, listRange_bind_of_holds hholds hrows hi]
  dsimp only [readValid]
  rcases hr : entryRange (slots.bytes (start + i)) childLen with _ | ⟨offset, count⟩
  · rfl
  · -- Every entry is a row of the structs, which has a key and a value unless it is null.
    have hle : childStart + offset + count ≤ childStart + childLen :=
      Nat.add_assoc .. ▸ Nat.add_le_add_left (entryRange_eq_ok_iff.1 hr).2 _
    have hkeys : childStart + childLen ≤ keyLen := hinside ("key", ⟨keys, keyStart, keyLen⟩) (by simp)
    have hvalues : childStart + childLen ≤ valueLen :=
      hinside ("value", ⟨values, valueStart, valueLen⟩) (by simp)
    have hpairs : ∀ j : Fin count,
        ((Layout.struct words [("key", ⟨keys, keyStart, keyLen⟩),
            ("value", ⟨values, valueStart, valueLen⟩)]).read (childStart + offset) count j >>=
          pairOf i j) =
        if words.isValid (childStart + offset + j) then do
          return (← keys.read (keyStart + (childStart + offset)) count j,
            ← values.read (valueStart + (childStart + offset)) count j)
        else Outcome.refuse (.nullMapEntry i j) :=
      fun j ↦ pairOf_read hkeys hvalues hle j.isLt
    have hcheck : ∀ j : Fin count, Window.checkRow count j = .ok () :=
      fun j ↦ Window.checkRow_of_lt j.isLt
    simp only [ok_bind, Window.checkRange_of_le (entryRange_eq_ok_iff.1 hr).2, Column.get,
      Window.narrow, hpairs, hcheck, Window.checkRange_of_le (Nat.le_trans hle hkeys),
      Window.checkRange_of_le (Nat.le_trans hle hvalues), map_eq_pure_bind]
    rfl

theorem read_union {words : Bitmap} {tags : SlotWindow} {alternatives : List (String × Column)}
    (h : (Layout.union words tags alternatives).Holds rows) (hrows : start + len ≤ rows)
    (hi : i < len) :
    (Layout.union words tags alternatives).read start len i =
      if (Layout.union words tags alternatives).isValid (start + i) then
        (Layout.union words tags alternatives).readValid start len i
      else .ok .null := by
  obtain ⟨hle, halternatives⟩ := h.here
  have hholds : tags.content.Holds (tags.start + tags.len) :=
    (h.inside (w := Column.ofFixed (.integer .uTinyInt) tags) (by simp [windows])).here.2
  have htags : tags.start + start + len ≤ tags.start + tags.len := by omega
  have hmembers : ∀ a ∈ alternatives, start + len ≤ a.2.len :=
    fun a ha ↦ Nat.le_trans hrows (halternatives a ha)
  rw [read, Window.checkRange_of_le (Nat.le_trans hrows hle), ok_bind,
    Slots.get_bind_of_holds hholds htags hi]
  simp only [isValid, readValid, Nat.add_assoc, readAlternative_of_le hmembers hi]
  -- A row is null if its bit says so, and also if its tag is null.
  by_cases hrow : words.isValid (start + i)
  · by_cases htag : tags.content.words.isValid (tags.start + (start + i))
    · simp only [hrow, htag, if_true, Bool.and_self]
      rfl
    · simp [hrow, htag]
  · simp [hrow]

/-- A row in range is null unless it is valid, and the value of its buffers if it is. -/
theorem read_eq {layout : Layout} (h : layout.Holds rows) (hrows : start + len ≤ rows)
    (hi : i < len) :
    layout.read start len i =
      if layout.isValid (start + i) then layout.readValid start len i else .ok .null := by
  have hfits := h.here
  cases layout with
  | fixed kind slots => rw [read, Slots.get_bind_of_holds hfits.2 hrows hi]; rfl
  | string kind slots heap => rw [read, Slots.get_bind_of_holds hfits.2 hrows hi]; rfl
  | decimal t width slots => rw [read, Slots.get_bind_of_holds hfits.2.2 hrows hi]; rfl
  | enumeration t width slots => rw [read, Slots.get_bind_of_holds hfits.2.2 hrows hi]; rfl
  | list slots child =>
    obtain ⟨child, childStart, childLen⟩ := child
    rw [read, listRange_bind_of_holds hfits.2 hrows hi]
    dsimp only [readValid]
    rcases hr : entryRange (slots.bytes (start + i)) childLen with _ | ⟨offset, count⟩
    · rfl
    · simp only [ok_bind, Window.checkRange_of_le (entryRange_eq_ok_iff.1 hr).2]
      rfl
  | struct words fields => exact read_struct hfits hrows hi
  | map key value slots child => exact read_map h hrows hi
  | array length words child =>
    obtain ⟨child, childStart, childLen⟩ := child
    have hle := array_row_le hfits (show start + i < rows by omega)
    rw [read, Outcome.assert_eq_ok_iff.2 (decide_eq_true hi), ok_bind]
    simp only [isValid, readValid, Window.checkRange_of_le hle, ok_bind]
    rfl
  | union words tags alternatives => exact read_union h hrows hi

theorem null_or_readValid_of_read {layout : Layout} {v : Value} (h : layout.Holds rows)
    (hrows : start + len ≤ rows) (hi : i < len) (hv : layout.read start len i = .ok v) :
    v = .null ∨ layout.readValid start len i = .ok v := by
  rw [read_eq h hrows hi] at hv
  split at hv
  · exact .inr hv
  · exact .inl (Except.ok.inj hv).symm

end ReadEq

end Layout

/-- A row in range of a column within its buffers is null unless it is valid. -/
theorem Column.Within.getItem_eq {ok : Nat → Prop} {c : Column} (h : c.Within ok) {i : Nat}
    (hi : i < c.len) :
    c.getItem i = if c.isValid i then c.content.readValid c.start c.len i else .ok .null := by
  rw [getItem_of_lt hi, get, Layout.read_eq h.holds (Nat.le_refl _) hi, isValid]

end Columnar
