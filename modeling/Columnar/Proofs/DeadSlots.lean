import Columnar.Proofs.MapsAndUnions
import Columnar.Scalar.UuidStandard
import Columnar.View

/-!
# Slots that nothing reads

Buffers hold bytes that mean nothing: the slot of a null row, and the slots of an alternative in the
rows where the tag of the union selects another one. Here it is shown that no such byte has an
effect. Two chunks that differ in nothing but dead slots are opened alike, refused alike, and have
the same rows (`View.related_column_of_differOnlyDead`).

`Chunk.Opens` lists the uses of vectors, starting from the columns: the type that a vector is opened
as, with the rows of it that are live, which are those that the structs and unions around it hand
on. A slot is dead if its row is null by the bitmap of its own vector or, unless the entries of
lists are checked early, if the row is not live. A vector with two uses has to be dead in both.

The proof compares the two chunks type by type. `Column.Alike` says that the rows which are needed
are the same, and every shape of type keeps it (`ignoresDead_list` and its kin); the induction on
the type puts them together (`Column.ignoresDead`).
-/

namespace Columnar

namespace Outcome.Related

variable {α β γ δ ε : Type} {R : α → β → Prop} {S : γ → δ → Prop} {x : Outcome α} {y : Outcome β}

theorem of_eq {x y : Outcome α} (h : x = y) : Related Eq x y := by
  subst h
  cases x with
  | ok a => exact .ok rfl
  | error failure => exact .error failure

theorem eq {x y : Outcome α} (h : Related Eq x y) : x = y := by
  cases h with
  | ok h => rw [h]
  | error failure => rfl

theorem imp {T : α → β → Prop} (h : Related R x y)
    (himp : ∀ a b, x = .ok a → y = .ok b → R a b → T a b) : Related T x y := by
  cases h with
  | ok h => exact .ok (himp _ _ rfl rfl h)
  | error failure => exact .error failure

theorem bind (h : Related R x y) {f : α → Outcome γ} {g : β → Outcome δ}
    (hfg : ∀ a b, x = .ok a → y = .ok b → R a b → Related S (f a) (g b)) :
    Related S (x >>= f) (y >>= g) := by
  cases h with
  | ok h => exact hfg _ _ rfl rfl h
  | error failure => exact .error failure

/-- Two maps over one list are related if they are so at each of its elements. -/
theorem mapM {T : ε → α → β → Prop} {as : List ε} {f : ε → Outcome α} {g : ε → Outcome β}
    (h : ∀ a ∈ as, Related (T a) (f a) (g a)) :
    Related (fun xs ys ↦ ∀ (k : Nat) a x y, as[k]? = some a → xs[k]? = some x → ys[k]? = some y →
      T a x y) (as.mapM f) (as.mapM g) := by
  induction as with
  | nil => exact .ok (by simp)
  | cons a as ih =>
    obtain ⟨ha, has⟩ := List.forall_mem_cons.1 h
    rw [List.mapM_cons, List.mapM_cons]
    refine ha.bind fun x y _ _ hxy ↦ (ih has).bind fun xs ys _ _ hrest ↦ .ok ?_
    intro k a' x' y' ha' hx' hy'
    cases k with
    | zero =>
      obtain rfl := Option.some.inj ha'
      obtain rfl := Option.some.inj hx'
      obtain rfl := Option.some.inj hy'
      exact hxy
    | succ k => exact hrest k a' x' y' ha' hx' hy'

end Outcome.Related

open Outcome (Related)

/-- There are no bytes past the end of the buffer. -/
theorem Slots.bytes_eq_nil {s : Slots} {row : Nat} (h : s.data.size ≤ row * s.width) :
    s.bytes row = [] := by
  rw [bytes, Array.toList_eq_nil_iff, Array.extract_eq_empty_iff]
  omega

/-! ### Chunks that differ in their data -/

/-- The same vector but for the bytes of its buffer, of which there are as many. -/
structure RawVector.SameButData (v w : RawVector) : Prop where
  rest : { v with data := w.data } = w
  size_eq : v.data.size = w.data.size

namespace Chunk

/-- The same chunk but for the bytes in the buffers of its vectors. -/
structure SameButData (a b : Chunk) : Prop where
  rest : { a with vectors := b.vectors } = b
  vectors : List.Forall₂ RawVector.SameButData a.vectors.toList b.vectors.toList

/-- The buffer of a vector, cut into slots of `width` bytes. -/
def cut (c : Chunk) (id width : Nat) : Slots where
  data := ((c.vectors[id]?).map (·.data)).getD #[]
  width := width
  words := c.validity id

/-- The number of bytes of a slot of the type, if its values have slots. -/
def slotWidth? (c : Chunk) : LogicalType → Option Nat
  | .fixed kind => some (Column.slotWidth c kind)
  | .string _ => some StringSlot.width
  | .decimal t => t.physicalWidth?
  | .enumeration t => some t.indexWidth
  | .list _ | .map .. => some entryWidth
  | .struct _ | .array .. | .union _ | .other _ => none

/-- The rows of member `k` of a union that are live, where the union is live in the rows `live`: the
union must not be null and, but for the tags themselves, its tag has to select the member. -/
def memberLive (c : Chunk) (id : Nat) (live : Nat → Prop) : Nat → Nat → Prop
  | 0, row => live row ∧ (c.validity id).isValid row = true
  | k + 1, row => (live row ∧ (c.validity id).isValid row = true) ∧
    ∃ tags, c.structChild id 0 = .ok tags ∧ (c.validity tags).isValid row = true ∧
      tagOf ((c.cut tags 1).bytes row) = k

/-- The uses of vectors: from the columns of the chunk on, each vector that is opened, with its type
and its live rows. All rows of columns are live, and all elements of lists and arrays; structs and
unions hand on to their fields what is live of them. -/
inductive Opens (c : Chunk) : LogicalType → Nat → (Nat → Prop) → Prop where
  | column {id : Nat} {v : RawVector} (hid : id ∈ c.columns) (hv : c.vectors[id]? = some v) :
    Opens c v.type id fun _ ↦ True
  | element {t : LogicalType} {id child count : Nat} {live : Nat → Prop}
    (h : Opens c (.list t) id live) (hchild : c.listChild id = .ok (child, count)) :
    Opens c t child fun _ ↦ True
  | field {fields : List (String × LogicalType)} {f : String × LogicalType} {id k child : Nat}
    {live : Nat → Prop} (h : Opens c (.struct fields) id live) (hf : fields[k]? = some f)
    (hchild : c.structChild id k = .ok child) :
    Opens c f.2 child fun row ↦ live row ∧ (c.validity id).isValid row = true
  | entries {key value : LogicalType} {id : Nat} {live : Nat → Prop}
    (h : Opens c (.map key value) id live) :
    Opens c (.list (.struct (LogicalType.mapEntry key value))) id live
  | item {t : LogicalType} {length : UInt64} {id child : Nat} {live : Nat → Prop}
    (h : Opens c (.array t length) id live) (hchild : c.arrayChild id = .ok child) :
    Opens c t child fun _ ↦ True
  | member {alternatives : List (String × LogicalType)} {f : String × LogicalType}
    {id k child : Nat} {live : Nat → Prop} (h : Opens c (.union alternatives) id live)
    (hf : (LogicalType.unionMembers alternatives)[k]? = some f)
    (hchild : c.structChild id k = .ok child) : Opens c f.2 child (c.memberLive id live k)

/-- Where a slot differs, in any use of its vector, its row is null by the bitmap of the vector or,
unless the entries of lists are checked early, not live. -/
def DifferOnlyDead (config : DecodeConfig) (a b : Chunk) : Prop :=
  ∀ t id live width, a.Opens t id live → a.slotWidth? t = some width → ∀ row,
    (a.cut id width).bytes row ≠ (b.cut id width).bytes row →
      (a.validity id).isValid row = false ∨ config.eagerListValidation = false ∧ ¬ live row

end Chunk

/-- The rows that have to be the same: the live ones or, with the early check, all. -/
def DecodeConfig.Needs (config : DecodeConfig) (live : Nat → Prop) (row : Nat) : Prop :=
  config.eagerListValidation = true ∨ live row

theorem DecodeConfig.Needs.imp {config : DecodeConfig} {live other : Nat → Prop} {row : Nat}
    (h : config.Needs live row) (himp : live row → other row) : config.Needs other row :=
  Or.imp_right himp h

namespace Chunk

/-- Needed slots of valid rows are the same. -/
theorem DifferOnlyDead.bytes_eq {config : DecodeConfig} {a b : Chunk} (h : DifferOnlyDead config a b)
    {t : LogicalType} {id width row : Nat} {live : Nat → Prop} (ht : a.Opens t id live)
    (hwidth : a.slotWidth? t = some width) (hvalid : (a.validity id).isValid row = true)
    (hneed : config.Needs live row) : (a.cut id width).bytes row = (b.cut id width).bytes row := by
  by_contra hne
  rcases h t id live width ht hwidth row hne with hnull | ⟨hlazy, hdead⟩
  · simp [hvalid] at hnull
  · rcases hneed with heager | hlive
    · simp [hlazy] at heager
    · exact hdead hlive

theorem slots_eq_cut {c : Chunk} {id count width valueWidth : Nat} {w : SlotWindow}
    (h : c.slots id count width valueWidth = .ok w) : w = .whole (c.cut id width) count := by
  obtain ⟨-, -, v, hv, -, -, rfl⟩ := slots_eq_ok_iff.1 h
  simp [cut, validity, hv]

namespace SameButData

variable {a b : Chunk} (h : a.SameButData b)

include h

theorem columns_eq : a.columns = b.columns := by rw [← h.rest]

theorem rowCount_eq : a.rowCount = b.rowCount := by rw [← h.rest]

theorem heap_eq : a.heap = b.heap := by rw [← h.rest]

theorem slotWidth_eq (kind : FixedKind) : Column.slotWidth a kind = Column.slotWidth b kind := by
  exact Column.slotWidth_congr (by rw [← h.rest]) kind

/-- A vector is in both chunks or in none. -/
theorem vector_cases (id : Nat) :
    (a.vectors[id]? = none ∧ b.vectors[id]? = none) ∨
      ∃ v w, a.vectors[id]? = some v ∧ b.vectors[id]? = some w ∧ v.SameButData w := by
  obtain ⟨hlen, hget⟩ := List.forall₂_iff_get.1 h.vectors
  have hsize : a.vectors.size = b.vectors.size := by simpa using hlen
  by_cases hid : id < a.vectors.size
  · have hid' : id < b.vectors.size := hsize ▸ hid
    exact .inr ⟨_, _, Array.getElem?_eq_getElem hid, Array.getElem?_eq_getElem hid',
      by simpa using hget id hid hid'⟩
  · exact .inl ⟨Array.getElem?_eq_none (by omega), Array.getElem?_eq_none (by omega)⟩

theorem related_vector (id : Nat) : Related RawVector.SameButData (a.vector id) (b.vector id) := by
  rcases h.vector_cases id with ⟨ha, hb⟩ | ⟨v, w, ha, hb, hvw⟩
  · rw [vector, vector, ha, hb]
    exact .error _
  · rw [vector_eq_ok_iff.2 ha, vector_eq_ok_iff.2 hb]
    exact .ok hvw

theorem validity_eq (id : Nat) : a.validity id = b.validity id := by
  rcases h.vector_cases id with ⟨ha, hb⟩ | ⟨v, w, ha, hb, hvw⟩
  · simp [validity, ha, hb]
  · rw [validity, validity, ha, hb, ← hvw.rest]
    rfl

theorem logicalType_eq (id : Nat) : a.logicalType id = b.logicalType id := by
  rcases h.vector_cases id with ⟨ha, hb⟩ | ⟨v, w, ha, hb, hvw⟩
  · simp [logicalType, vector, ha, hb]
  · rw [logicalType, logicalType, vector_eq_ok_iff.2 ha, vector_eq_ok_iff.2 hb, ← hvw.rest]
    rfl

theorem listChild_eq (id : Nat) : a.listChild id = b.listChild id :=
  Related.eq <| (h.related_vector id).bind fun _ _ _ _ hvw ↦ .of_eq <| by rw [← hvw.rest]

theorem structChild_eq (id index : Nat) : a.structChild id index = b.structChild id index :=
  Related.eq <| (h.related_vector id).bind fun _ _ _ _ hvw ↦ .of_eq <| by rw [← hvw.rest]

theorem arrayChild_eq (id : Nat) : a.arrayChild id = b.arrayChild id :=
  Related.eq <| (h.related_vector id).bind fun _ _ _ _ hvw ↦ .of_eq <| by rw [← hvw.rest]

theorem bitmap_eq (id count : Nat) : a.bitmap id count = b.bitmap id count := by
  rw [bitmap, bitmap, h.validity_eq]

theorem related_data (id size : Nat) :
    Related (fun d e ↦ d.size = e.size) (a.data id size) (b.data id size) := by
  refine (h.related_vector id).bind fun v w _ _ hvw ↦ ?_
  rw [← hvw.size_eq, ← hvw.rest]
  exact (Related.of_eq rfl).bind fun _ _ _ _ _ ↦ .ok hvw.size_eq

/-- Slots are had from both chunks or refused by both alike. -/
theorem related_slots (id count width valueWidth : Nat) :
    Related (fun v w ↦ v = .whole (a.cut id width) count ∧ w = .whole (b.cut id width) count)
      (a.slots id count width valueWidth) (b.slots id count width valueWidth) := by
  suffices hsome : Related (fun _ _ ↦ True) (a.slots id count width valueWidth)
      (b.slots id count width valueWidth) from
    hsome.imp fun _ _ hv hw _ ↦ ⟨slots_eq_cut hv, slots_eq_cut hw⟩
  refine (Related.of_eq rfl).bind fun _ _ _ _ _ ↦ ?_
  have hbuffer : Related (fun d e ↦ d.size = e.size) (a.buffer id count width)
      (b.buffer id count width) := by
    refine (Related.of_eq rfl).bind fun _ _ _ _ _ ↦ (h.related_data _ _).bind fun d e _ _ hde ↦ ?_
    rw [hde]
    exact (Related.of_eq rfl).bind fun _ _ _ _ _ ↦ .ok hde
  refine hbuffer.bind fun d e _ _ hde ↦ ?_
  refine (Related.of_eq (h.bitmap_eq id count)).bind fun words _ _ _ hwords ↦ ?_
  rw [Slots.ofBuffer, Slots.ofBuffer, hde]
  refine (Related.of_eq rfl).bind fun _ _ _ _ _ ↦ ?_
  exact (Related.of_eq rfl).bind fun _ _ _ _ _ ↦ .ok trivial

end SameButData

end Chunk

namespace Column

/-! ### Rows that are the same -/

/-- The needed rows of all slices are the same in both columns. -/
def Alike (need : Nat → Prop) (c d : Column) : Prop :=
  ∀ start len i, start + len ≤ c.len → i < len → need (start + i) →
    getItem (c.narrow start len) i = getItem (d.narrow start len) i

theorem Alike.get_eq {need : Nat → Prop} {c d : Column} (h : Alike need c d) {start len i : Nat}
    (hle : start + len ≤ c.len) (hi : i < len) (hneed : need (start + i)) :
    get (c.narrow start len) i = get (d.narrow start len) i := by
  have hrow := h start len i hle hi hneed
  rwa [getItem_of_lt (by exact hi), getItem_of_lt (by exact hi)] at hrow

/-- Two columns that were opened as one type, with as many rows, and are alike. -/
structure OpenedAlike (need : Nat → Prop) (count : Nat) (t : LogicalType) (c d : Column) : Prop where
  left : IsOpened (fun _ ↦ True) count t c
  right : IsOpened (fun _ ↦ True) count t d
  alike : Alike need c d

theorem OpenedAlike.type_eq {need : Nat → Prop} {count : Nat} {t : LogicalType} {c d : Column}
    (h : OpenedAlike need count t c d) : c.type = d.type :=
  h.left.type_eq.trans h.right.type_eq.symm

theorem OpenedAlike.len_eq {need : Nat → Prop} {count : Nat} {t : LogicalType} {c d : Column}
    (h : OpenedAlike need count t c d) : c.len = d.len :=
  h.left.len_eq.trans h.right.len_eq.symm

/-- Opened columns are alike if their needed rows are valid alike, and have the same values where
they are. -/
theorem alike_of_readValid {need : Nat → Prop} {count : Nat} {t : LogicalType}
    {layout layout' : Layout} (hc : IsOpened (fun _ ↦ True) count t (.whole layout count))
    (hd : IsOpened (fun _ ↦ True) count t (.whole layout' count))
    (hvalid : ∀ row, need row → layout.isValid row = layout'.isValid row)
    (hread : ∀ {start len i}, start + len ≤ count → i < len → need (start + i) →
      layout.isValid (start + i) = true →
        layout.readValid start len i = layout'.readValid start len i) :
    Alike need (.whole layout count) (.whole layout' count) := by
  intro start len i hle hi hneed
  have hread' : ∀ {layout : Layout}, IsOpened (fun _ ↦ True) count t (.whole layout count) →
      getItem (Window.narrow (.whole layout count) start len) i =
        if layout.isValid (start + i) then layout.readValid start len i else .ok .null := by
    intro layout h
    rw [(h.within.narrow (fun _ _ ↦ trivial) hle).getItem_eq hi, isValid]
    simp only [Window.narrow, Window.whole, Nat.zero_add]
  rw [hread' hc, hread' hd, ← hvalid _ hneed]
  split
  next h => exact hread hle hi hneed h
  next => rfl

/-- What a caller can see of two columns is the same. -/
structure SameRows [Uuid.Library] (c d : Column) : Prop where
  type_eq : c.type = d.type
  len_eq : c.len = d.len
  getItem_eq : ∀ i, c.getItem i = d.getItem i
  toJson_eq : c.toJson = d.toJson

theorem OpenedAlike.sameRows [Uuid.Library] {need : Nat → Prop} {count : Nat} {t : LogicalType}
    {c d : Column}
    (h : OpenedAlike need count t c d) (hall : ∀ row, need row) : SameRows c d := by
  have hlen := h.len_eq
  have hrows : ∀ i, c.getItem i = d.getItem i := by
    intro i
    rcases Nat.lt_or_ge i c.len with hi | hi
    · have := h.alike 0 c.len i (by omega) hi (hall _)
      rwa [show c.narrow 0 c.len = c from rfl, hlen, show d.narrow 0 d.len = d from rfl] at this
    · rw [getItem_of_le hi, getItem_of_le (hlen ▸ hi)]
  refine ⟨h.type_eq, hlen, hrows, ?_⟩
  have hjson : c.rowToJson = d.rowToJson := funext fun i ↦ by rw [rowToJson, hrows, rowToJson]
  rw [toJson, toJson, Outcome.collect_eq_mapM c.len c.rowToJson, hjson, hlen,
    ← Outcome.collect_eq_mapM d.len d.rowToJson]

/-! ### Opening two chunks -/

section Opening

variable {a b : Chunk} {config : DecodeConfig} {t : LogicalType}

/-- In every use as a column of the type, vectors are opened alike in both chunks, with the same
needed rows. -/
def IgnoresDead (config : DecodeConfig) (a b : Chunk) (t : LogicalType) : Prop :=
  ∀ id live, a.Opens t id live → ∀ depth count,
    Related (OpenedAlike (config.Needs live) count t) (decodeAt a config depth id count t)
      (decodeAt b config depth id count t)

/-- What opened columns are may be used to compare their rows. -/
theorem related_decodeAt {R : Column → Column → Prop} {need : Nat → Prop} {depth id count : Nat}
    (h : Related R (decodeAt a config depth id count t) (decodeAt b config depth id count t))
    (hrows : ∀ {c d}, IsOpened (fun _ ↦ True) count t c → IsOpened (fun _ ↦ True) count t d →
      R c d → Alike need c d) :
    Related (OpenedAlike need count t) (decodeAt a config depth id count t)
      (decodeAt b config depth id count t) := by
  refine h.imp fun c d hc hd hcd ↦ ?_
  have hc := isOpened_of_decodeAt a.counts_true hc trivial
  have hd := isOpened_of_decodeAt b.counts_true hd trivial
  exact ⟨hc, hd, hrows hc hd hcd⟩

variable (hsame : a.SameButData b) (hdead : a.DifferOnlyDead config b)

/-! #### Leaves -/

/-- Vectors are opened as columns of the type by taking their slots. -/
def OpensBySlots (chunk : Chunk) (config : DecodeConfig) (t : LogicalType) (layout : Slots → Layout)
    (width valueWidth : Nat) : Prop :=
  ∀ depth id count, decodeAt chunk config depth id count t = do
    checkDepth config depth
    let w ← chunk.slots id count width valueWidth
    return ⟨layout w.content, w.start, w.len⟩

include hsame hdead in
/-- A leaf reads a slot of its vector in each row that is valid. -/
theorem ignoresDead_leaf {layout : Slots → Layout} {width valueWidth : Nat}
    (hwidth : a.slotWidth? t = some width) (ha : OpensBySlots a config t layout width valueWidth)
    (hb : OpensBySlots b config t layout width valueWidth)
    (hvalid : ∀ s row, (layout s).isValid row = s.words.isValid row)
    (hread : ∀ {s s' : Slots} {start len i}, s.bytes (start + i) = s'.bytes (start + i) →
      (layout s).readValid start len i = (layout s').readValid start len i) :
    IgnoresDead config a b t := by
  intro id live hopens depth count
  have hslots : Related (fun c d ↦ c = .whole (layout (a.cut id width)) count ∧
      d = .whole (layout (b.cut id width)) count)
      (decodeAt a config depth id count t) (decodeAt b config depth id count t) := by
    rw [ha, hb]
    refine (Related.of_eq rfl).bind fun _ _ _ _ _ ↦ ?_
    refine (hsame.related_slots id count width valueWidth).bind fun v w _ _ hvw ↦ .ok ?_
    rw [hvw.1, hvw.2]
    exact ⟨rfl, rfl⟩
  refine related_decodeAt hslots fun hc hd hcd ↦ ?_
  obtain ⟨rfl, rfl⟩ := hcd
  refine alike_of_readValid hc hd (fun row _ ↦ ?_) fun _ _ hneed hrow ↦ hread ?_
  · rw [hvalid, hvalid]
    exact congrArg (Bitmap.isValid · row) (hsame.validity_eq id)
  · rw [hvalid] at hrow
    exact hdead.bytes_eq hopens hwidth hrow hneed

/-- A type that no vector can be opened as has no rows to compare. -/
theorem ignoresDead_of_ne_ok
    (heq : ∀ depth id count, decodeAt a config depth id count t = decodeAt b config depth id count t)
    (hne : ∀ depth id count c, decodeAt a config depth id count t ≠ .ok c) :
    IgnoresDead config a b t :=
  fun _ _ _ depth count ↦
    (Related.of_eq (heq depth _ count)).imp fun _ _ hc ↦ absurd hc (hne _ _ _ _)

include hsame hdead in
theorem ignoresDead_fixed (kind : FixedKind) : IgnoresDead config a b (.fixed kind) := by
  have ha : OpensBySlots a config (.fixed kind) (.fixed kind) (slotWidth a kind) kind.width :=
    fun _ _ _ ↦ rfl
  have hb : OpensBySlots b config (.fixed kind) (.fixed kind) (slotWidth a kind) kind.width :=
    fun _ _ _ ↦ by rw [hsame.slotWidth_eq]; rfl
  refine ignoresDead_leaf hsame hdead rfl ha hb (fun _ _ ↦ rfl) fun hbytes ↦ ?_
  simp only [Layout.readValid, hbytes]

include hsame hdead in
theorem ignoresDead_string (kind : StringKind) : IgnoresDead config a b (.string kind) := by
  have ha : OpensBySlots a config (.string kind) (.string kind · a.heap) StringSlot.width
    StringSlot.width := fun _ _ _ ↦ rfl
  have hb : OpensBySlots b config (.string kind) (.string kind · a.heap) StringSlot.width
    StringSlot.width := fun _ _ _ ↦ by rw [hsame.heap_eq]; rfl
  refine ignoresDead_leaf hsame hdead rfl ha hb (fun _ _ ↦ rfl) fun hbytes ↦ ?_
  simp only [Layout.readValid, hbytes]

include hsame hdead in
/-- A decimal with too many digits, or too large a scale, is refused whatever the chunk. -/
theorem ignoresDead_decimal (t : DecimalType) : IgnoresDead config a b (.decimal t) := by
  by_cases hok : t.scale ≤ t.width ∧ ∃ width, t.physicalWidth? = some width
  · obtain ⟨hscale, width, hwidth⟩ := hok
    have hopens : ∀ chunk, OpensBySlots chunk config (.decimal t) (.decimal t width) width width := by
      intro chunk depth id count
      show (do checkDepth config depth; decodeDecimal chunk id count t) = _
      rw [decodeDecimal, Outcome.require_eq_ok_iff.2 (decide_eq_true hscale),
        DecimalType.physicalWidth, hwidth]
      rfl
    have hslots : a.slotWidth? (.decimal t) = some width := hwidth
    refine ignoresDead_leaf hsame hdead hslots (hopens a) (hopens b) (fun _ _ ↦ rfl) fun hbytes ↦ ?_
    simp only [Layout.readValid, hbytes]
  · refine ignoresDead_of_ne_ok (fun depth id count ↦ ?_) fun depth id count c hc ↦ ?_
    · refine Related.eq ((Related.of_eq rfl).bind fun _ _ _ _ _ ↦ ?_)
      refine (Related.of_eq rfl).bind fun _ _ hscale _ _ ↦ ?_
      have hnone : t.physicalWidth? = none := by
        refine Option.eq_none_iff_forall_ne_some.2 fun width hwidth ↦ hok ⟨?_, width, hwidth⟩
        exact of_decide_eq_true (Outcome.require_eq_ok.1 hscale)
      rw [DecimalType.physicalWidth, hnone]
      exact .error _
    · obtain ⟨hscale, width, -, hwidth, -⟩ :=
        decodeDecimal_eq_ok_iff.1 (decodeAt_decimal_eq_ok_iff.1 hc).2
      exact hok ⟨hscale, width, hwidth⟩

include hsame hdead in
theorem ignoresDead_enumeration (t : EnumType) : IgnoresDead config a b (.enumeration t) := by
  have hopens : ∀ chunk, OpensBySlots chunk config (.enumeration t) (.enumeration t t.indexWidth)
    t.indexWidth t.indexWidth := fun _ _ _ _ ↦ rfl
  refine ignoresDead_leaf hsame hdead rfl (hopens a) (hopens b) (fun _ _ ↦ rfl) fun hbytes ↦ ?_
  simp only [Layout.readValid, hbytes]

/-! #### Lists and arrays -/

theorem forM_congr {α : Type} {f g : α → Outcome Unit} {as : List α} (h : ∀ a ∈ as, f a = g a) :
    as.forM f = as.forM g := by
  rw [List.forM_eq_forM]
  induction as with
  | nil => rfl
  | cons a as ih =>
    obtain ⟨ha, has⟩ := List.forall_mem_cons.1 h
    rw [List.forM_cons, List.forM_cons, ha, ih has]

/-- The check of all entries takes the same course, as it looks at none but valid ones. -/
theorem validateEntries_congr {slots slots' : Slots} {child child' : Column} {count : Nat}
    (hslots : slots.Holds count) (hslots' : slots'.Holds count) (hwords : slots.words = slots'.words)
    (hlen : child.len = child'.len)
    (hbytes : ∀ row, slots.words.isValid row = true → slots.bytes row = slots'.bytes row) :
    validateEntries (.whole (.list slots child) count) =
      validateEntries (.whole (.list slots' child') count) := by
  refine forM_congr fun i hi ↦ ?_
  have hi := List.mem_range.1 hi
  have hle : 0 + count ≤ count := Nat.le_of_eq (Nat.zero_add count)
  show (Layout.listRange slots 0 count i child.len >>= fun _ ↦ pure ()) =
    (Layout.listRange slots' 0 count i child'.len >>= fun _ ↦ pure ())
  rw [Layout.listRange_bind_of_holds hslots hle hi, Layout.listRange_bind_of_holds hslots' hle hi,
    ← hwords, ← hlen]
  split
  next hvalid => rw [hbytes _ hvalid]
  next => rfl

/-- Lists are alike if their elements are, and those that are needed have the same entries. -/
theorem alike_list {element : LogicalType} {count n : Nat} {need needs : Nat → Prop}
    {slots slots' : Slots} {e e' : Column}
    (hc : IsOpened (fun _ ↦ True) count (.list element) (.whole (.list slots e) count))
    (hd : IsOpened (fun _ ↦ True) count (.list element) (.whole (.list slots' e') count))
    (hwords : slots.words = slots'.words)
    (hbytes : ∀ row, need row → slots.words.isValid row = true → slots.bytes row = slots'.bytes row)
    (hel : OpenedAlike needs n element e e') (hall : ∀ row, needs row) :
    Alike need (.whole (.list slots e) count) (.whole (.list slots' e') count) := by
  refine alike_of_readValid hc hd (fun row _ ↦ ?_) fun {start len i} _ _ hneed hrow ↦ ?_
  · exact congrArg (Bitmap.isValid · row) hwords
  · simp only [Layout.readValid, ← hbytes _ hneed hrow, ← hel.type_eq, ← hel.len_eq]
    cases hr : entryRange (slots.bytes (start + i)) e.len with
    | error failure => rfl
    | ok range =>
      obtain ⟨offset, n⟩ := range
      have hle := (Layout.entryRange_eq_ok_iff.1 hr).2
      have hget : (fun j : Fin n ↦ Column.get (e.narrow offset n) j) =
          fun j : Fin n ↦ Column.get (e'.narrow offset n) j :=
        funext fun j ↦ hel.alike.get_eq hle j.isLt (hall _)
      simp only [ok_bind, hget]

/-- Lists are opened alike if their vectors have the same child and slots that are the same where they
are needed, and the child is opened alike: also the early check, which needs all slots, finds the
same. -/
theorem related_decodeList {element : LogicalType} {depth id count : Nat} {need needs : Nat → Prop}
    {slots slots' : Slots}
    (hslots : Related (fun v w ↦ v = .whole slots count ∧ w = .whole slots' count)
      (a.slots id count entryWidth entryWidth) (b.slots id count entryWidth entryWidth))
    (hwords : slots.words = slots'.words)
    (hbytes : ∀ row, need row → slots.words.isValid row = true → slots.bytes row = slots'.bytes row)
    (heager : config.eagerListValidation = true → ∀ row, need row)
    (hchild : a.listChild id = b.listChild id) (hall : ∀ row, needs row)
    (h : ∀ child n, a.listChild id = .ok (child, n) → Related (OpenedAlike needs n element)
      (decodeAt a config (depth + 1) child n element) (decodeAt b config (depth + 1) child n element)) :
    Related (OpenedAlike need count (.list element)) (decodeAt a config depth id count (.list element))
      (decodeAt b config depth id count (.list element)) := by
  have hlists : Related (fun c d ↦ ∃ n, ∃ e e' : Column, OpenedAlike needs n element e e' ∧
        c = .whole (.list slots e) count ∧ d = .whole (.list slots' e') count)
      (decodeAt a config depth id count (.list element))
      (decodeAt b config depth id count (.list element)) := by
    refine (Related.of_eq rfl).bind fun _ _ _ _ _ ↦ ?_
    refine hslots.bind fun v w hv hw hvw ↦ ?_
    obtain ⟨rfl, rfl⟩ := hvw
    refine (Related.of_eq hchild).bind fun _ _ hchild _ heq ↦ ?_
    subst heq
    refine (h _ _ hchild).bind fun e e' _ _ hel ↦ ?_
    rw [ofList_eq_ok_iff.2 ⟨hel.left.type_eq, rfl⟩, ofList_eq_ok_iff.2 ⟨hel.right.type_eq, rfl⟩]
    simp only [ok_bind]
    split
    next hcheck =>
      obtain ⟨-, -, -, -, hholds⟩ := Chunk.slots_spec hv
      obtain ⟨-, -, -, -, hholds'⟩ := Chunk.slots_spec hw
      have hsame := validateEntries_congr hholds hholds' hwords hel.len_eq
        fun row hvalid ↦ hbytes row (heager hcheck row) hvalid
      exact (Related.of_eq hsame).bind fun _ _ _ _ _ ↦ .ok ⟨_, e, e', hel, rfl, rfl⟩
    next => exact .ok ⟨_, e, e', hel, rfl, rfl⟩
  refine related_decodeAt hlists fun hc hd hcd ↦ ?_
  obtain ⟨_, e, e', hel, rfl, rfl⟩ := hcd
  exact alike_list hc hd hwords hbytes hel hall

include hsame hdead in
/-- A list that is needed has the same entry, and with it the same elements. -/
theorem ignoresDead_list {element : LogicalType} (h : IgnoresDead config a b element) :
    IgnoresDead config a b (.list element) :=
  fun id _ hopens _ _ ↦ related_decodeList (hsame.related_slots id _ _ _) (hsame.validity_eq id)
    (fun _ hneed hrow ↦ hdead.bytes_eq hopens rfl hrow hneed) (fun heager _ ↦ .inl heager)
    (hsame.listChild_eq id) (fun _ ↦ .inr trivial)
    fun _ _ hchild ↦ h _ _ (hopens.element hchild) _ _

/-- Arrays are alike if their elements are. -/
theorem alike_array {element : LogicalType} {length : UInt64} {count n : Nat}
    {need needs : Nat → Prop} {words words' : Bitmap} {e e' : Column}
    (hc : IsOpened (fun _ ↦ True) count (.array element length) (.whole (.array length words e) count))
    (hd : IsOpened (fun _ ↦ True) count (.array element length)
      (.whole (.array length words' e') count))
    (hwords : words = words') (hel : OpenedAlike needs n element e e') (hall : ∀ row, needs row) :
    Alike need (.whole (.array length words e) count) (.whole (.array length words' e') count) := by
  refine alike_of_readValid hc hd (fun row _ ↦ ?_) fun {start len i} hle hi _ _ ↦ ?_
  · exact congrArg (Bitmap.isValid · row) hwords
  · have hfits := hc.everywhere.here.1
    have hrow := Layout.array_row_le hfits (show start + i < count by omega)
    have hget : (fun j : Fin length.toNat ↦
          Column.get (e.narrow ((start + i) * length.toNat) length.toNat) j) =
        fun j : Fin length.toNat ↦
          Column.get (e'.narrow ((start + i) * length.toNat) length.toNat) j :=
      funext fun j ↦ hel.alike.get_eq hrow j.isLt (hall _)
    simp only [Layout.readValid, ← hel.type_eq, hget]

/-- Arrays are opened alike if their vectors have the same bitmap and child, and the child is opened
alike. -/
theorem related_decodeArray {element : LogicalType} {length : UInt64} {depth id count : Nat}
    {need needs : Nat → Prop} (hvalidity : a.validity id = b.validity id)
    (hchild : a.arrayChild id = b.arrayChild id) (hall : ∀ row, needs row)
    (h : ∀ child n, a.arrayChild id = .ok child → Related (OpenedAlike needs n element)
      (decodeAt a config (depth + 1) child n element) (decodeAt b config (depth + 1) child n element)) :
    Related (OpenedAlike need count (.array element length))
      (decodeAt a config depth id count (.array element length))
      (decodeAt b config depth id count (.array element length)) := by
  have harrays : Related (fun c d ↦ ∃ n, ∃ e e' : Column, OpenedAlike needs n element e e' ∧
        c = .whole (.array length (a.validity id) e) count ∧
        d = .whole (.array length (b.validity id) e') count)
      (decodeAt a config depth id count (.array element length))
      (decodeAt b config depth id count (.array element length)) := by
    have hbitmap : a.bitmap id count = b.bitmap id count := by
      rw [Chunk.bitmap, Chunk.bitmap, hvalidity]
    refine (Related.of_eq rfl).bind fun _ _ _ _ _ ↦ ?_
    refine (Related.of_eq hbitmap).bind fun _ _ hwords hwords' _ ↦ ?_
    obtain ⟨-, rfl⟩ := Chunk.bitmap_eq_ok_iff.1 hwords
    obtain ⟨-, rfl⟩ := Chunk.bitmap_eq_ok_iff.1 hwords'
    refine (Related.of_eq rfl).bind fun _ _ hlt _ _ ↦ ?_
    refine (Related.of_eq hchild).bind fun _ _ hchild _ heq ↦ ?_
    subst heq
    refine (h _ _ hchild).bind fun e e' _ _ hel ↦ ?_
    have hlt := of_decide_eq_true (Outcome.require_eq_ok.1 hlt)
    rw [ofArray_eq_ok_iff.2 ⟨hel.left.type_eq, hlt, hel.left.len_eq.ge, rfl⟩,
      ofArray_eq_ok_iff.2 ⟨hel.right.type_eq, hlt, hel.right.len_eq.ge, rfl⟩]
    exact .ok ⟨_, e, e', hel, rfl, rfl⟩
  refine related_decodeAt harrays fun hc hd hcd ↦ ?_
  obtain ⟨_, e, e', hel, rfl, rfl⟩ := hcd
  exact alike_array hc hd hvalidity hel hall

include hsame in
theorem ignoresDead_array {element : LogicalType} {length : UInt64}
    (h : IgnoresDead config a b element) : IgnoresDead config a b (.array element length) :=
  fun id _ hopens _ _ ↦ related_decodeArray (hsame.validity_eq id) (hsame.arrayChild_eq id)
    (fun _ ↦ .inr trivial) fun _ _ hchild ↦ h _ _ (hopens.item hchild) _ _

/-! #### Structs, maps and unions -/

/-- The columns of the fields of a struct. -/
def openFields (chunk : Chunk) (config : DecodeConfig) (depth id count : Nat)
    (fields : List (String × LogicalType)) : Outcome (List Column) :=
  fields.zipIdx.mapM fun f ↦
    (chunk.structChild id f.2 >>= fun child ↦ decodeAt chunk config depth child count f.1.2)

theorem decodeAt_struct {chunk : Chunk} {depth id count : Nat}
    {fields : List (String × LogicalType)} :
    decodeAt chunk config depth id count (.struct fields) = (do
      checkDepth config depth
      let words ← chunk.bitmap id count
      ofFields fields words count (← openFields chunk config (depth + 1) id count fields)) := by
  show (do
    checkDepth config depth
    decodeStruct chunk id count fields (fieldDecoders chunk config (depth + 1) count fields)) = _
  rw [decodeStruct, fieldDecoders_eq_map, decodeChildren_eq_mapM, List.zipIdx_map, List.mapM_map]
  rfl

/-- Columns of the fields always make a struct. -/
theorem ofFields_of_openFields {chunk : Chunk} {depth id count : Nat} {words : Bitmap}
    {fields : List (String × LogicalType)} {columns : List Column}
    (h : openFields chunk config depth id count fields = .ok columns) :
    columns.length = fields.length ∧ ofFields fields words count columns =
      .ok (.whole (.struct words ((fields.map (·.1)).zip columns)) count) := by
  have hfields : List.Forall₂ (fun f col ↦ col.len = count ∧ Column.type col = f.2) fields columns := by
    rw [← List.zipIdx_map_fst 0 fields, List.forall₂_map_left_iff]
    refine (mapM_eq_ok_iff.1 h).imp fun f col hcol ↦ ?_
    obtain ⟨child, -, hdecode⟩ := bind_eq_ok_iff.1 hcol
    have hopened := isOpened_of_decodeAt chunk.counts_true hdecode trivial
    exact ⟨hopened.len_eq, hopened.type_eq⟩
  exact ⟨hfields.length_eq.symm, ofFields_eq_ok_iff.2 ⟨hfields, rfl⟩⟩

/-- The columns of a field, which is given with its position, were opened from the same vector, as
alike as the position asks for. -/
def FieldAlike (a b : Chunk) (config : DecodeConfig) (needs : Nat → Nat → Prop)
    (depth id count : Nat) (f : (String × LogicalType) × Nat) (x y : Column) : Prop :=
  ∃ child, a.structChild id f.2 = .ok child ∧ decodeAt a config depth child count f.1.2 = .ok x ∧
    decodeAt b config depth child count f.1.2 = .ok y ∧ OpenedAlike (needs f.2) count f.1.2 x y

/-- The columns of all fields were opened alike. -/
def FieldsAlike (a b : Chunk) (config : DecodeConfig) (needs : Nat → Nat → Prop)
    (depth id count : Nat) (fields : List (String × LogicalType)) (cs ds : List Column) : Prop :=
  ∀ (k : Nat) f x y, fields.zipIdx[k]? = some f → cs[k]? = some x → ds[k]? = some y →
    FieldAlike a b config needs depth id count f x y

theorem FieldsAlike.at {needs : Nat → Nat → Prop} {depth id count k : Nat}
    {fields : List (String × LogicalType)} {f : String × LogicalType} {cs ds : List Column}
    {x y : Column} (h : FieldsAlike a b config needs depth id count fields cs ds)
    (hf : fields[k]? = some f) (hx : cs[k]? = some x) (hy : ds[k]? = some y) :
    FieldAlike a b config needs depth id count (f, k) x y :=
  h k (f, k) x y (by simp [List.getElem?_zipIdx, hf]) hx hy

/-- A row of a field is the same if it is needed. -/
theorem FieldAlike.get_eq {needs : Nat → Nat → Prop} {depth id count start len i : Nat}
    {f : (String × LogicalType) × Nat} {x y : Column}
    (h : FieldAlike a b config needs depth id count f x y) (hle : start + len ≤ count) (hi : i < len)
    (hneed : needs f.2 (start + i)) : get (x.narrow start len) i = get (y.narrow start len) i := by
  obtain ⟨-, -, -, -, hxy⟩ := h
  exact hxy.alike.get_eq (hxy.left.len_eq ▸ hle) hi hneed

/-- Structs are opened alike, with their fields, if their vectors have the same bitmap and children,
and each field is opened alike. -/
theorem related_decodeStruct {fields : List (String × LogicalType)} {id : Nat}
    (needs : Nat → Nat → Prop) (depth count : Nat) (hvalidity : a.validity id = b.validity id)
    (hchildren : ∀ k, a.structChild id k = b.structChild id k)
    (h : ∀ (k : Nat) f child, fields[k]? = some f → a.structChild id k = .ok child →
      Related (OpenedAlike (needs k) count f.2) (decodeAt a config (depth + 1) child count f.2)
        (decodeAt b config (depth + 1) child count f.2)) :
    Related (fun c d ↦ ∃ cs ds, FieldsAlike a b config needs (depth + 1) id count fields cs ds ∧
        cs.length = fields.length ∧ ds.length = fields.length ∧
        c = .whole (.struct (a.validity id) ((fields.map (·.1)).zip cs)) count ∧
        d = .whole (.struct (b.validity id) ((fields.map (·.1)).zip ds)) count)
      (decodeAt a config depth id count (.struct fields))
      (decodeAt b config depth id count (.struct fields)) := by
  have hfields : Related (FieldsAlike a b config needs (depth + 1) id count fields)
      (openFields a config (depth + 1) id count fields)
      (openFields b config (depth + 1) id count fields) := by
    refine Related.mapM fun f hf ↦ ?_
    refine (Related.of_eq (hchildren f.2)).bind fun child _ hchild _ heq ↦ ?_
    subst heq
    have hf := h f.2 f.1 child (List.mk_mem_zipIdx_iff_getElem?.1 hf) hchild
    exact hf.imp fun x y hx hy hxy ↦ ⟨child, hchild, hx, hy, hxy⟩
  have hbitmap : a.bitmap id count = b.bitmap id count := by
    rw [Chunk.bitmap, Chunk.bitmap, hvalidity]
  rw [decodeAt_struct, decodeAt_struct]
  refine (Related.of_eq rfl).bind fun _ _ _ _ _ ↦ ?_
  refine (Related.of_eq hbitmap).bind fun _ _ hwords hwords' _ ↦ ?_
  obtain ⟨-, rfl⟩ := Chunk.bitmap_eq_ok_iff.1 hwords
  obtain ⟨-, rfl⟩ := Chunk.bitmap_eq_ok_iff.1 hwords'
  refine hfields.bind fun cs ds hcs hds hall ↦ ?_
  obtain ⟨hlen, hcs⟩ := ofFields_of_openFields hcs
  obtain ⟨hlen', hds⟩ := ofFields_of_openFields hds
  rw [hcs, hds]
  exact .ok ⟨cs, ds, hall, hlen, hlen', rfl, rfl⟩

theorem mapM_zip_congr {α β ν : Type} {names : List ν} {xs ys : List α} {f : ν × α → Outcome β}
    (hlen : xs.length = ys.length)
    (h : ∀ (k : Nat) n x y, names[k]? = some n → xs[k]? = some x → ys[k]? = some y →
      f (n, x) = f (n, y)) : (names.zip xs).mapM f = (names.zip ys).mapM f := by
  induction names generalizing xs ys with
  | nil => rfl
  | cons n names ih =>
    cases xs with
    | nil =>
      obtain rfl := List.length_eq_zero_iff.1 hlen.symm
      rfl
    | cons x xs =>
      obtain ⟨y, ys, rfl⟩ := List.exists_cons_of_length_eq_add_one hlen.symm
      have hrest := ih (Nat.succ.inj hlen) fun k n x y hn hx hy ↦ h (k + 1) n x y hn hx hy
      rw [List.zip_cons_cons, List.zip_cons_cons, List.mapM_cons, List.mapM_cons, hrest,
        h 0 n x y rfl rfl rfl]

/-- Structs are opened alike if their fields are, which are needed in the rows where the struct is
needed and valid. -/
theorem related_decodeStruct_of_fields {fields : List (String × LogicalType)} {depth id count : Nat}
    {need : Nat → Prop} {needs : Nat → Nat → Prop} (hvalidity : a.validity id = b.validity id)
    (hchildren : ∀ k, a.structChild id k = b.structChild id k)
    (hneeds : ∀ k row, need row → (a.validity id).isValid row = true → needs k row)
    (h : ∀ (k : Nat) f child, fields[k]? = some f → a.structChild id k = .ok child →
      Related (OpenedAlike (needs k) count f.2) (decodeAt a config (depth + 1) child count f.2)
        (decodeAt b config (depth + 1) child count f.2)) :
    Related (OpenedAlike need count (.struct fields)) (decodeAt a config depth id count (.struct fields))
      (decodeAt b config depth id count (.struct fields)) := by
  have hstructs := related_decodeStruct needs depth count hvalidity hchildren h
  refine related_decodeAt hstructs fun hc hd hcd ↦ ?_
  obtain ⟨cs, ds, hfields, hlen, hlen', rfl, rfl⟩ := hcd
  refine alike_of_readValid hc hd (fun row _ ↦ ?_) fun {start len i} hle hi hneed hrow ↦ ?_
  · exact congrArg (Bitmap.isValid · row) hvalidity
  · refine congrArg (Value.struct <$> ·) (mapM_zip_congr (hlen.trans hlen'.symm) ?_)
    intro k name x y hname hx hy
    obtain ⟨f, hf, -⟩ := Option.map_eq_some_iff.1 (List.getElem?_map .. ▸ hname)
    exact congrArg ((name, ·) <$> ·) <|
      (hfields.at hf hx hy).get_eq hle hi (hneeds _ _ hneed hrow)

include hsame in
/-- The fields of a struct are needed in the rows where it is needed and valid. -/
theorem ignoresDead_struct {fields : List (String × LogicalType)}
    (h : ∀ f ∈ fields, IgnoresDead config a b f.2) : IgnoresDead config a b (.struct fields) :=
  fun id _ hopens _ _ ↦ related_decodeStruct_of_fields (hsame.validity_eq id)
    (fun k ↦ hsame.structChild_eq id k)
    (fun _ _ hneed hrow ↦ hneed.imp fun hlive ↦ ⟨hlive, hrow⟩)
    fun _ f _ hf hchild ↦ h f (List.mem_of_getElem? hf) _ _ (hopens.field hf hchild) _ _

/-- Maps are made of the lists that they are stored as, row by row, and so they are opened alike if
these are. -/
theorem related_decodeMap {key value : LogicalType} {depth id count : Nat} {need : Nat → Prop}
    (h : Related (OpenedAlike need count (.list (.struct (LogicalType.mapEntry key value))))
      (decodeAt a config depth id count (.list (.struct (LogicalType.mapEntry key value))))
      (decodeAt b config depth id count (.list (.struct (LogicalType.mapEntry key value))))) :
    Related (OpenedAlike need count (.map key value)) (decodeAt a config depth id count (.map key value))
      (decodeAt b config depth id count (.map key value)) := by
  have hmaps : Related (fun c d ↦ ∃ l l' : Column, c.entries = .ok l ∧ d.entries = .ok l' ∧
        OpenedAlike need count (.list (.struct (LogicalType.mapEntry key value))) l l')
      (decodeAt a config depth id count (.map key value))
      (decodeAt b config depth id count (.map key value)) := by
    rw [decodeAt_map, decodeAt_map]
    refine h.bind fun l l' hl hl' hlists ↦ ?_
    obtain ⟨c, hc, hentries⟩ := exists_map_of_entries hl
    obtain ⟨d, hd, hentries'⟩ := exists_map_of_entries hl'
    rw [decodeAt_map, hl, ok_bind] at hc
    rw [decodeAt_map, hl', ok_bind] at hd
    rw [hc, hd]
    exact .ok ⟨l, l', hentries, hentries', hlists⟩
  refine related_decodeAt hmaps fun {c d} hc hd hcd ↦ ?_
  obtain ⟨l, l', hl, hl', hlists⟩ := hcd
  intro start len i hle hi hneed
  rw [hc.len_eq] at hle
  have hc := hc.within.narrow (fun _ _ ↦ trivial) (hc.len_eq.symm ▸ hle)
  have hd := hd.within.narrow (fun _ _ ↦ trivial) (hd.len_eq.symm ▸ hle)
  rw [getItem_eq_pairUp hc (entries_narrow hl) hi, getItem_eq_pairUp hd (entries_narrow hl') hi,
    hlists.alike start len i (hlists.left.len_eq.symm ▸ hle) hi hneed]

theorem ignoresDead_map {key value : LogicalType}
    (h : IgnoresDead config a b (.list (.struct (LogicalType.mapEntry key value)))) :
    IgnoresDead config a b (.map key value) :=
  fun _ _ hopens depth count ↦ related_decodeMap (h _ _ hopens.entries depth count)

/-- The selected alternative is read alike if its columns are. -/
theorem selected_congr {names : List String} {xs ys : List Column} {k start len i : Nat}
    (hxs : xs.length = names.length) (hys : ys.length = names.length)
    (h : ∀ name x y, names[k]? = some name → xs[k]? = some x → ys[k]? = some y →
      get (x.narrow start len) i = get (y.narrow start len) i) :
    (match (names.zip xs)[k]? with
      | none => Outcome.refuse (.invalidDiscriminant k (names.zip xs).length)
      | some a => Value.union a.1 <$> get (a.2.narrow start len) i) =
    match (names.zip ys)[k]? with
    | none => Outcome.refuse (.invalidDiscriminant k (names.zip ys).length)
    | some a => Value.union a.1 <$> get (a.2.narrow start len) i := by
  have hlen : (names.zip xs).length = (names.zip ys).length := by simp [hxs, hys]
  by_cases hk : k < names.length
  · have hzip : ∀ {zs : List Column} (hz : zs.length = names.length),
        (names.zip zs)[k]? = some (names[k], zs[k]) := fun hz ↦
      List.getElem?_zip_eq_some.2 ⟨List.getElem?_eq_getElem hk, List.getElem?_eq_getElem (hz ▸ hk)⟩
    rw [hzip hxs, hzip hys]
    exact congrArg (Value.union names[k] <$> ·) <| h _ _ _ (List.getElem?_eq_getElem hk)
      (List.getElem?_eq_getElem _) (List.getElem?_eq_getElem _)
  · rw [List.getElem?_eq_none (by simp [hxs]; omega), List.getElem?_eq_none (by simp [hys]; omega),
      hlen]

/-- Members of unions that were opened are tags, which are slots of one byte, and alternatives. -/
theorem ofMembers_of_decodeStruct {chunk : Chunk} {depth id count : Nat} {words : Bitmap}
    {alternatives : List (String × LogicalType)} {columns : List Column}
    (hlen : columns.length = (LogicalType.unionMembers alternatives).length)
    (hs : decodeAt chunk config depth id count (.struct (LogicalType.unionMembers alternatives)) =
      .ok (.whole (.struct words
        (((LogicalType.unionMembers alternatives).map (·.1)).zip columns)) count)) :
    ∃ tags rest, columns = ofFixed (.integer .uTinyInt) tags :: rest ∧
      rest.length = alternatives.length ∧ ofMembers alternatives (.whole (.struct words
          (((LogicalType.unionMembers alternatives).map (·.1)).zip columns)) count) =
        .ok (.whole (.union words tags ((alternatives.map (·.1)).zip rest)) count) := by
  obtain ⟨x, rest, rfl⟩ := List.exists_cons_of_length_eq_add_one hlen
  obtain ⟨u, hu, -⟩ := exists_union_of_members hs
  rw [decodeAt_union, hs, ok_bind] at hu
  obtain ⟨-, name, tags, members, hcons, rfl⟩ := ofMembers_eq_ok_iff.1 hu
  obtain ⟨htag, rfl⟩ := List.cons.inj hcons
  obtain ⟨-, rfl⟩ := Prod.mk.inj htag
  exact ⟨tags, rest, rfl, Nat.succ.inj hlen, hu⟩

theorem eq_cut_of_decodeTags {chunk : Chunk} {depth id count : Nat} {tags : SlotWindow}
    (h : decodeAt chunk config depth id count LogicalType.tagType =
      .ok (ofFixed (.integer .uTinyInt) tags)) : tags = .whole (chunk.cut id 1) count := by
  obtain ⟨-, w, hw, hofFixed⟩ := decodeAt_fixed_eq_ok_iff.1 h
  obtain ⟨hslots, hstart, hlen⟩ := Window.mk.inj hofFixed
  obtain ⟨-, hslots⟩ := Layout.fixed.inj hslots
  have htags : tags = w := by rw [Window.mk.injEq]; exact ⟨hslots, hstart, hlen⟩
  rw [htags, Chunk.slots_eq_cut hw]
  rfl

/-- Columns of unions whose tags are the slots of one vector, with alternatives that were opened
alike. -/
def UnionsAlike (a b : Chunk) (config : DecodeConfig) (depth id count : Nat) (live : Nat → Prop)
    (alternatives : List (String × LogicalType)) (c d : Column) : Prop :=
  ∃ tags cs ds, a.structChild id 0 = .ok tags ∧
    a.Opens LogicalType.tagType tags (a.memberLive id live 0) ∧
    cs.length = alternatives.length ∧ ds.length = alternatives.length ∧
    (∀ (k : Nat) f x y, alternatives[k]? = some f → cs[k]? = some x → ds[k]? = some y →
      FieldAlike a b config (fun k ↦ config.Needs (a.memberLive id live k)) depth id count (f, k + 1)
        x y) ∧
    c = .whole (.union (a.validity id) (.whole (a.cut tags 1) count)
      ((alternatives.map (·.1)).zip cs)) count ∧
    d = .whole (.union (b.validity id) (.whole (b.cut tags 1) count)
      ((alternatives.map (·.1)).zip ds)) count

include hsame hdead in
theorem related_decodeUnion {alternatives : List (String × LogicalType)} {id : Nat}
    {live : Nat → Prop} (h : ∀ f ∈ alternatives, IgnoresDead config a b f.2)
    (hopens : a.Opens (.union alternatives) id live) (depth count : Nat) :
    Related (UnionsAlike a b config (depth + 1) id count live alternatives)
      (decodeAt a config depth id count (.union alternatives))
      (decodeAt b config depth id count (.union alternatives)) := by
  rw [decodeAt_union, decodeAt_union]
  have hmembers : ∀ f ∈ LogicalType.unionMembers alternatives, IgnoresDead config a b f.2 := by
    intro f hf
    rcases List.mem_cons.1 hf with rfl | hf
    · exact ignoresDead_fixed hsame hdead _
    · exact h f hf
  have hstructs := related_decodeStruct (fun k ↦ config.Needs (a.memberLive id live k)) depth
    count (hsame.validity_eq id) (fun k ↦ hsame.structChild_eq id k) fun k f child hf hchild ↦
      hmembers f (List.mem_of_getElem? hf) _ _ (hopens.member hf hchild) _ _
  refine hstructs.bind fun _ _ hs hs' hss ↦ ?_
  obtain ⟨xs, ys, hfields, hxs, hys, rfl, rfl⟩ := hss
  obtain ⟨tags, cs, rfl, hcs, hmake⟩ := ofMembers_of_decodeStruct hxs hs
  obtain ⟨tags', ds, rfl, hds, hmake'⟩ := ofMembers_of_decodeStruct hys hs'
  -- The tags of both were opened from the first vector of the struct.
  obtain ⟨child, hchild, htags, htags', -⟩ := hfields.at (k := 0) rfl rfl rfl
  obtain rfl := eq_cut_of_decodeTags htags
  obtain rfl := eq_cut_of_decodeTags htags'
  rw [hmake, hmake']
  exact .ok ⟨child, cs, ds, hchild, hopens.member rfl hchild, hcs, hds,
    fun k f x y hf hx hy ↦ hfields.at hf hx hy, rfl, rfl⟩

/-- Unions are alike if their tags are the same where they are needed and valid, and the alternatives
are where the tags select them. -/
theorem alike_union {alternatives : List (String × LogicalType)} {count : Nat} {need : Nat → Prop}
    {words words' : Bitmap} {tags tags' : Slots} {cs ds : List Column}
    (hc : IsOpened (fun _ ↦ True) count (.union alternatives) (.whole (.union words
      (.whole tags count) ((alternatives.map (·.1)).zip cs)) count))
    (hd : IsOpened (fun _ ↦ True) count (.union alternatives) (.whole (.union words'
      (.whole tags' count) ((alternatives.map (·.1)).zip ds)) count))
    (hcs : cs.length = alternatives.length) (hds : ds.length = alternatives.length)
    (hwords : words = words') (htags : tags.words = tags'.words)
    (hbytes : ∀ row, need row → words.isValid row = true → tags.words.isValid row = true →
      tags.bytes row = tags'.bytes row)
    (hmembers : ∀ (k : Nat) f x y, alternatives[k]? = some f → cs[k]? = some x → ds[k]? = some y →
      ∀ start len i, start + len ≤ count → i < len → need (start + i) →
        words.isValid (start + i) = true → tags.words.isValid (start + i) = true →
        tagOf (tags.bytes (start + i)) = k → get (x.narrow start len) i = get (y.narrow start len) i) :
    Alike need (.whole (.union words (.whole tags count) ((alternatives.map (·.1)).zip cs)) count)
      (.whole (.union words' (.whole tags' count) ((alternatives.map (·.1)).zip ds)) count) := by
  refine alike_of_readValid hc hd (fun row _ ↦ ?_) fun {start len i} hle hi hneed hrow ↦ ?_
  · show (words.isValid row && tags.words.isValid (0 + row)) =
      (words'.isValid row && tags'.words.isValid (0 + row))
    rw [hwords, htags]
  · obtain ⟨hvalid, htag⟩ := Bool.and_eq_true_iff.1 hrow
    have htag : tags.words.isValid (start + i) = true := by
      rwa [show start + i = 0 + (start + i) from (Nat.zero_add _).symm]
    simp only [Layout.readValid, Window.whole, Nat.zero_add, ← hbytes _ hneed hvalid htag]
    generalize hk : tagOf (tags.bytes (start + i)) = k
    refine selected_congr (by simpa using hcs) (by simpa using hds) fun name x y hname hx hy ↦ ?_
    obtain ⟨f, hf, -⟩ := Option.map_eq_some_iff.1 (List.getElem?_map .. ▸ hname)
    exact hmembers k f x y hf hx hy start len i hle hi hneed hvalid htag hk

include hsame hdead in
/-- The rows of an alternative are needed where the union is needed and valid and its tag, which is
needed there as well, selects the alternative. -/
theorem ignoresDead_union {alternatives : List (String × LogicalType)}
    (h : ∀ f ∈ alternatives, IgnoresDead config a b f.2) :
    IgnoresDead config a b (.union alternatives) := by
  intro id live hopens depth count
  refine related_decodeAt (related_decodeUnion hsame hdead h hopens depth count) fun hc hd hcd ↦ ?_
  obtain ⟨tags, cs, ds, htags, hopensTags, hcs, hds, hfields, rfl, rfl⟩ := hcd
  refine alike_union hc hd hcs hds (hsame.validity_eq id) (hsame.validity_eq tags) ?_ ?_
  · exact fun row hneed hvalid htag ↦
      hdead.bytes_eq hopensTags rfl htag (hneed.imp fun hlive ↦ ⟨hlive, hvalid⟩)
  · intro k f x y hf hx hy start len i hle hi hneed hvalid htag hk
    exact (hfields k f x y hf hx hy).get_eq hle hi <|
      hneed.imp fun hlive ↦ ⟨⟨hlive, hvalid⟩, tags, htags, htag, hk⟩

include hsame hdead in
/-- No dead slot has an effect, whatever the type. -/
theorem ignoresDead (t : LogicalType) : IgnoresDead config a b t := by
  induction t using LogicalType.inductionOn with
  | fixed kind => exact ignoresDead_fixed hsame hdead kind
  | string kind => exact ignoresDead_string hsame hdead kind
  | decimal type => exact ignoresDead_decimal hsame hdead type
  | enumeration type => exact ignoresDead_enumeration hsame hdead type
  | list element ih => exact ignoresDead_list hsame hdead ih
  | struct fields ih => exact ignoresDead_struct hsame ih
  | map key value ihKey ihValue =>
    refine ignoresDead_map (ignoresDead_list hsame hdead (ignoresDead_struct hsame ?_))
    intro f hf
    rcases List.mem_pair.1 hf with rfl | rfl
    · exact ihKey
    · exact ihValue
  | array element length ih => exact ignoresDead_array hsame ih
  | union alternatives ih => exact ignoresDead_union hsame hdead ih
  | other id =>
    exact ignoresDead_of_ne_ok (fun _ _ _ ↦ rfl) fun _ _ _ _ ↦ decodeAt_other_ne_ok

end Opening

end Column

/-! ### Columns of both chunks -/

open Column in
/-- Dead bytes have no effect. If two chunks differ in nothing but dead slots, each column is opened
in both, or refused for the same reason in both, and the columns have the same rows and the same
JSON. -/
theorem View.related_column_of_differOnlyDead [Uuid.Library] {a b : Chunk} {config : DecodeConfig}
    (hsame : a.SameButData b) (hdead : Chunk.DifferOnlyDead config a b) (index : Nat) :
    Related SameRows ((View.mk a config).column index) ((View.mk b config).column index) := by
  have hvector : (View.mk a config).columnVector index = (View.mk b config).columnVector index := by
    simp only [View.columnVector, View.columnCount, Chunk.column, hsame.columns_eq]
    rfl
  refine (Related.of_eq hvector).bind fun id _ hid _ heq ↦ ?_
  subst heq
  refine (Related.of_eq (hsame.logicalType_eq id)).bind fun t _ ht _ heq ↦ ?_
  subst heq
  obtain ⟨v, hv, rfl⟩ := map_eq_ok_iff.1 ht
  have hmem : id ∈ a.columns := by
    simp only [View.columnVector, Chunk.column, bind_eq_ok_iff] at hid
    obtain ⟨-, -, hid⟩ := hid
    cases hget : a.columns[index]? with
    | none => rw [hget] at hid; cases hid
    | some id' =>
      rw [hget] at hid
      obtain rfl := Except.ok.inj hid
      exact List.mem_of_getElem? hget
  have hrows : (View.mk a config).rowCount = (View.mk b config).rowCount := hsame.rowCount_eq
  rw [hrows]
  have hcolumns := ignoresDead hsame hdead v.type id _
    (.column hmem (Chunk.vector_eq_ok_iff.1 hv)) 1 (View.mk b config).rowCount
  exact hcolumns.imp fun _ _ _ _ hcd ↦ hcd.sameRows fun _ ↦ .inr trivial

/-- A column of unions with the rows `7`, an empty string and null. Its dead slots, which are that of
the null number and those that the tags do not select, are filled with `filler`. -/
def deadSlots (filler : UInt8) : Chunk where
  vectors := #[
    { type := .union [("code", LogicalType.tagType), ("name", .string .varchar)]
      children := [1, 2, 3] },
    { type := LogicalType.tagType, data := #[0, 1, 0] },
    { type := LogicalType.tagType, data := #[7, filler, filler], validity := some #[3] },
    { type := .string .varchar
      data := (List.replicate 16 filler ++ List.replicate 16 0 ++ List.replicate 16 filler).toArray }]
  columns := [0]
  rowCount := 3

/-- The members of the union in `deadSlots`. -/
abbrev deadSlotsMembers : List (String × LogicalType) :=
  LogicalType.unionMembers [("code", LogicalType.tagType), ("name", .string .varchar)]

/-- The union is used as the column that it is, and each member only by the union. -/
theorem deadSlots_opens {filler : UInt8} {t : LogicalType} {id : Nat} {live : Nat → Prop}
    (h : (deadSlots filler).Opens t id live) :
    t = .union [("code", LogicalType.tagType), ("name", .string .varchar)] ∧ id = 0 ∨
      ∃ k f, deadSlotsMembers[k]? = some f ∧ t = f.2 ∧ id = k + 1 ∧
        ∀ row, live row → (deadSlots filler).memberLive 0 (fun _ ↦ True) k row := by
  have hleaf : ∀ {k : Nat} {f}, deadSlotsMembers[k]? = some f →
      f.2 = LogicalType.tagType ∨ f.2 = .string .varchar := by
    intro k f hf
    match k, hf with
    | 0, hf | 1, hf | 2, hf =>
      obtain rfl := Option.some.inj hf
      simp
  induction h with
  | column hid hv =>
    obtain rfl := List.mem_singleton.1 hid
    obtain rfl := Option.some.inj hv
    exact .inl ⟨rfl, rfl⟩
  | @member alternatives f id k child live _ hf hchild ih =>
    obtain ⟨ht, rfl⟩ | ⟨k, f, hf, ht, -⟩ := ih
    · obtain rfl := LogicalType.union.inj ht
      refine .inr ⟨k, f, hf, rfl, ?_, fun row hrow ↦ ?_⟩
      · obtain ⟨v, hv, hchild⟩ := Chunk.structChild_eq_ok_iff.1 hchild
        obtain rfl := Option.some.inj hv
        match k, hchild with
        | 0, hchild | 1, hchild | 2, hchild => exact (Option.some.inj hchild).symm
      · cases k with
        | zero => exact ⟨trivial, hrow.2⟩
        | succ k => exact ⟨⟨trivial, hrow.1.2⟩, hrow.2⟩
    · rcases hleaf hf with h | h <;> cases ht.trans h
  | element _ _ ih | field _ _ _ ih | entries _ ih | item _ _ ih =>
    -- No vector of the chunk is a list, a struct, a map or an array.
    obtain ⟨ht, -⟩ | ⟨k, f, hf, ht, -⟩ := ih
    · cases ht
    · rcases hleaf hf with h | h <;> cases ht.trans h

theorem deadSlots_related :
    (deadSlots 0).SameButData (deadSlots 255) ∧
      Chunk.DifferOnlyDead {} (deadSlots 0) (deadSlots 255) ∧
      Related Column.SameRows ((View.mk (deadSlots 0) {}).column 0)
        ((View.mk (deadSlots 255) {}).column 0) := by
  have hsame : (deadSlots 0).SameButData (deadSlots 255) := by
    refine ⟨rfl, ?_⟩
    exact .cons ⟨rfl, rfl⟩ (.cons ⟨rfl, rfl⟩ (.cons ⟨rfl, rfl⟩ (.cons ⟨rfl, rfl⟩ .nil)))
  have htag : ∀ {k row : Nat}, (deadSlots 0).memberLive 0 (fun _ ↦ True) (k + 1) row →
      tagOf (((deadSlots 0).cut 1 1).bytes row) = k := by
    rintro k row ⟨-, tags, htags, -, htag⟩
    obtain rfl := Except.ok.inj htags
    exact htag
  have hpast : ∀ {id width row : Nat}, ((deadSlots 0).cut id width).data.size ≤ 3 * width →
      ((deadSlots 255).cut id width).data.size ≤ 3 * width →
        ((deadSlots 0).cut id width).bytes (row + 3) =
          ((deadSlots 255).cut id width).bytes (row + 3) := by
    intro id width row h h'
    have hle : 3 * width ≤ (row + 3) * width := Nat.mul_le_mul_right _ (Nat.le_add_left 3 row)
    rw [Slots.bytes_eq_nil (h.trans hle), Slots.bytes_eq_nil (h'.trans hle)]
  have hdead : Chunk.DifferOnlyDead {} (deadSlots 0) (deadSlots 255) := by
    intro t id live width hopens hwidth row hne
    obtain ⟨rfl, rfl⟩ | ⟨k, f, hf, rfl, rfl, hlive⟩ := deadSlots_opens hopens
    · cases hwidth
    · match k, hf with
      | 0, hf => exact absurd rfl hne
      | 1, hf =>
        obtain rfl := Option.some.inj hf
        obtain rfl := Option.some.inj hwidth
        match row with
        | 0 => exact absurd rfl hne
        | 1 => exact .inr ⟨rfl, fun hrow ↦ absurd (htag (hlive 1 hrow)) (by decide)⟩
        | 2 => exact .inl rfl
        | row + 3 => exact absurd (hpast (by decide) (by decide)) hne
      | 2, hf =>
        obtain rfl := Option.some.inj hf
        obtain rfl := Option.some.inj hwidth
        match row with
        | 0 => exact .inr ⟨rfl, fun hrow ↦ absurd (htag (hlive 0 hrow)) (by decide)⟩
        | 1 => exact absurd rfl hne
        | 2 => exact .inr ⟨rfl, fun hrow ↦ absurd (htag (hlive 2 hrow)) (by decide)⟩
        | row + 3 => exact absurd (hpast (by decide) (by decide)) hne
  exact ⟨hsame, hdead, View.related_column_of_differOnlyDead hsame hdead 0⟩

end Columnar
