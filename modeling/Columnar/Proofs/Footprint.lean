import Mathlib.Logic.Relation
import Columnar.Proofs.DeadSlots

/-!
# What opening a vector depends on

A vector is opened by looking at nothing but itself, the vectors below it (its children, their
children and so on), the width of booleans, and the heap that its strings are read from: two chunks
in which these are the same (`Chunk.AgreeFrom`) are opened alike. So the columns of a view are
isolated from each other (`View.column_eq_of_sameColumn`), whatever is wrong with the others.

Of the configuration, a vector depends on the nesting limit and on whether lists are checked early.
What comes of different limits is compared by the same induction on the type: `Outcome.SameUnless`
allows for failures that only one of two computations has, and with none to allow for it is
equality.
-/

namespace Columnar

/-! ### The same but for some failures -/

/-- The outcomes are the same, unless the first is a failure of the kind `P`. -/
def Outcome.SameUnless {α : Type} (P : Failure → Prop) (x y : Outcome α) : Prop :=
  x = y ∨ ∃ failure, x = .error failure ∧ P failure

namespace Outcome.SameUnless

variable {α β : Type} {P : Failure → Prop} {x y : Outcome α} {f g : α → Outcome β}

theorem of_eq (h : x = y) : SameUnless P x y := .inl h

theorem refl (x : Outcome α) : SameUnless P x x := .inl rfl

theorem eq (h : SameUnless (fun _ ↦ False) x y) : x = y :=
  h.resolve_right fun ⟨_, _, hfalse⟩ ↦ hfalse

theorem bind (h : SameUnless P x y) (hfg : ∀ a, x = .ok a → SameUnless P (f a) (g a)) :
    SameUnless P (x >>= f) (y >>= g) := by
  obtain rfl | ⟨failure, rfl, hP⟩ := h
  · cases x with
    | ok a => exact hfg a rfl
    | error failure => exact .refl _
  · exact .inr ⟨failure, rfl, hP⟩

theorem mapM {as : List α} (h : ∀ a ∈ as, SameUnless P (f a) (g a)) :
    SameUnless P (as.mapM f) (as.mapM g) := by
  induction as with
  | nil => exact .refl _
  | cons a as ih =>
    obtain ⟨ha, has⟩ := List.forall_mem_cons.1 h
    rw [List.mapM_cons, List.mapM_cons]
    exact ha.bind fun _ _ ↦ (ih has).bind fun _ _ ↦ .refl _

end Outcome.SameUnless

/-! ### Vectors below a vector -/

namespace Chunk

/-- Vector `child` is a child of vector `id`. -/
def IsChild (chunk : Chunk) (id child : Nat) : Prop :=
  ∃ v, chunk.vectors[id]? = some v ∧ child ∈ v.children

/-- The chunks have the same vectors from `id` on down, and read booleans and strings alike. -/
structure AgreeFrom (a b : Chunk) (id : Nat) : Prop where
  booleanWidth_eq : a.booleanWidth = b.booleanWidth
  heap_eq : a.heap = b.heap
  vectors_eq : ∀ i, Relation.ReflTransGen a.IsChild id i → a.vectors[i]? = b.vectors[i]?

variable {a b : Chunk} {id count index child childCount width valueWidth : Nat}

theorem isChild_of_listChild (h : a.listChild id = .ok (child, childCount)) :
    a.IsChild id child := by
  obtain ⟨v, hv, hchild, -⟩ := listChild_eq_ok_iff.1 h
  exact ⟨v, hv, List.mem_of_head? hchild⟩

theorem isChild_of_structChild (h : a.structChild id index = .ok child) : a.IsChild id child := by
  obtain ⟨v, hv, hchild⟩ := structChild_eq_ok_iff.1 h
  exact ⟨v, hv, List.mem_of_getElem? hchild⟩

theorem isChild_of_arrayChild (h : a.arrayChild id = .ok child) : a.IsChild id child := by
  obtain ⟨v, hv, hchild⟩ := arrayChild_eq_ok_iff.1 h
  exact ⟨v, hv, List.mem_of_head? hchild⟩

section SameVector

variable (h : a.vectors[id]? = b.vectors[id]?)

include h

theorem vector_congr : a.vector id = b.vector id := by rw [vector, vector, h]

theorem validity_congr : a.validity id = b.validity id := by rw [validity, validity, h]

theorem bitmap_congr : a.bitmap id count = b.bitmap id count := by
  rw [bitmap, bitmap, validity_congr h]

theorem slots_congr : a.slots id count width valueWidth = b.slots id count width valueWidth := by
  rw [slots, slots, buffer, buffer, data, data, vector_congr h, bitmap_congr h]

theorem listChild_congr : a.listChild id = b.listChild id := by
  rw [listChild, listChild, vector_congr h]

theorem structChild_congr : a.structChild id index = b.structChild id index := by
  rw [structChild, structChild, vector_congr h]

theorem arrayChild_congr : a.arrayChild id = b.arrayChild id := by
  rw [arrayChild, arrayChild, vector_congr h]

end SameVector

namespace AgreeFrom

theorem refl (a : Chunk) (id : Nat) : a.AgreeFrom a id := ⟨rfl, rfl, fun _ _ ↦ rfl⟩

theorem below (h : a.AgreeFrom b id) (hchild : a.IsChild id child) : a.AgreeFrom b child :=
  ⟨h.booleanWidth_eq, h.heap_eq, fun i hi ↦ h.vectors_eq i (hi.head hchild)⟩

theorem vector_eq (h : a.AgreeFrom b id) : a.vector id = b.vector id :=
  vector_congr (h.vectors_eq id .refl)

theorem bitmap_eq (h : a.AgreeFrom b id) : a.bitmap id count = b.bitmap id count :=
  bitmap_congr (h.vectors_eq id .refl)

theorem slots_eq (h : a.AgreeFrom b id) :
    a.slots id count width valueWidth = b.slots id count width valueWidth :=
  slots_congr (h.vectors_eq id .refl)

theorem listChild_eq (h : a.AgreeFrom b id) : a.listChild id = b.listChild id :=
  listChild_congr (h.vectors_eq id .refl)

theorem structChild_eq (h : a.AgreeFrom b id) :
    a.structChild id index = b.structChild id index :=
  structChild_congr (h.vectors_eq id .refl)

theorem arrayChild_eq (h : a.AgreeFrom b id) : a.arrayChild id = b.arrayChild id :=
  arrayChild_congr (h.vectors_eq id .refl)

end AgreeFrom

end Chunk

/-! ### Columns of each type -/

namespace Column

open Chunk (AgreeFrom isChild_of_listChild isChild_of_structChild isChild_of_arrayChild)
open Outcome (SameUnless)

variable {P : Failure → Prop} {a b : Chunk} {ca cb : DecodeConfig} {t : LogicalType}

/-- Vectors from which on the chunks agree are opened alike as columns of the type, but for failures
of the kind `P`. -/
def OpenedAlikeUnless (P : Failure → Prop) (a b : Chunk) (ca cb : DecodeConfig) (t : LogicalType) :
    Prop :=
  ∀ level id count, a.AgreeFrom b id →
    SameUnless P (decodeAt a ca level id count t) (decodeAt b cb level id count t)

/-- The configurations agree on the early check of lists, and on the nesting limit but for failures
of the kind `P`. -/
structure ConfigsAgree (P : Failure → Prop) (ca cb : DecodeConfig) : Prop where
  eager_eq : ca.eagerListValidation = cb.eagerListValidation
  level : ∀ level, SameUnless P (checkDepth ca level) (checkDepth cb level)

variable (hconfigs : ConfigsAgree P ca cb)

include hconfigs in
/-- A type without children is opened by one step behind the check of its level. -/
theorem openedAlike_leaf {opens : Chunk → Nat → Nat → Outcome Column}
    (h : ∀ chunk config level id count, decodeAt chunk config level id count t = do
      checkDepth config level
      opens chunk id count)
    (hopens : ∀ id count, a.AgreeFrom b id → opens a id count = opens b id count) :
    OpenedAlikeUnless P a b ca cb t := by
  intro level id count hagree
  rw [h, h]
  exact (hconfigs.level level).bind fun _ _ ↦ .of_eq (hopens id count hagree)

include hconfigs in
theorem openedAlike_fixed (kind : FixedKind) : OpenedAlikeUnless P a b ca cb (.fixed kind) := by
  refine openedAlike_leaf hconfigs (fun _ _ _ _ _ ↦ rfl) fun id count hagree ↦ ?_
  rw [slotWidth_congr hagree.booleanWidth_eq, hagree.slots_eq]

include hconfigs in
theorem openedAlike_string (kind : StringKind) : OpenedAlikeUnless P a b ca cb (.string kind) := by
  refine openedAlike_leaf hconfigs (fun _ _ _ _ _ ↦ rfl) fun id count hagree ↦ ?_
  rw [hagree.heap_eq, hagree.slots_eq]

include hconfigs in
theorem openedAlike_decimal (t : DecimalType) : OpenedAlikeUnless P a b ca cb (.decimal t) := by
  refine openedAlike_leaf hconfigs (fun _ _ _ _ _ ↦ rfl) fun id count hagree ↦ ?_
  simp only [decodeDecimal, hagree.slots_eq]

include hconfigs in
theorem openedAlike_list (h : OpenedAlikeUnless P a b ca cb t) :
    OpenedAlikeUnless P a b ca cb (.list t) := by
  intro level id count hagree
  rw [decodeAt, decodeAt]
  refine (hconfigs.level level).bind fun _ _ ↦ (SameUnless.of_eq hagree.slots_eq).bind fun w _ ↦ ?_
  refine (SameUnless.of_eq hagree.listChild_eq).bind fun (child, childCount) hchild ↦ ?_
  refine (h _ _ _ (hagree.below (isChild_of_listChild hchild))).bind fun elements _ ↦ ?_
  rw [hconfigs.eager_eq]
  exact .refl _

include hconfigs in
theorem openedAlike_struct {fields : List (String × LogicalType)}
    (h : ∀ f ∈ fields, OpenedAlikeUnless P a b ca cb f.2) :
    OpenedAlikeUnless P a b ca cb (.struct fields) := by
  intro level id count hagree
  rw [decodeAt_struct, decodeAt_struct]
  refine (hconfigs.level level).bind fun _ _ ↦ (SameUnless.of_eq hagree.bitmap_eq).bind fun _ _ ↦ ?_
  refine SameUnless.bind (SameUnless.mapM fun f hf ↦ ?_) fun columns _ ↦ .refl _
  have hmem : f.1 ∈ fields := List.mem_of_getElem? (List.mem_zipIdx_iff_getElem?.1 hf)
  refine (SameUnless.of_eq hagree.structChild_eq).bind fun child hchild ↦ ?_
  exact h f.1 hmem _ _ _ (hagree.below (isChild_of_structChild hchild))

include hconfigs in
theorem openedAlike_map {key value : LogicalType} (hkey : OpenedAlikeUnless P a b ca cb key)
    (hvalue : OpenedAlikeUnless P a b ca cb value) :
    OpenedAlikeUnless P a b ca cb (.map key value) := by
  intro level id count hagree
  rw [decodeAt_map, decodeAt_map]
  refine SameUnless.bind ?_ fun entries _ ↦ .refl _
  refine openedAlike_list hconfigs (openedAlike_struct hconfigs fun f hf ↦ ?_) level id count hagree
  rcases List.mem_pair.1 hf with rfl | rfl
  · exact hkey
  · exact hvalue

include hconfigs in
theorem openedAlike_array {length : UInt64} (h : OpenedAlikeUnless P a b ca cb t) :
    OpenedAlikeUnless P a b ca cb (.array t length) := by
  intro level id count hagree
  rw [decodeAt, decodeAt]
  refine (hconfigs.level level).bind fun _ _ ↦ (SameUnless.of_eq hagree.bitmap_eq).bind fun _ _ ↦ ?_
  refine (SameUnless.refl _).bind fun _ _ ↦ ?_
  refine (SameUnless.of_eq hagree.arrayChild_eq).bind fun child hchild ↦ ?_
  exact (h _ _ _ (hagree.below (isChild_of_arrayChild hchild))).bind fun _ _ ↦ .refl _

include hconfigs in
theorem openedAlike_union {alternatives : List (String × LogicalType)}
    (h : ∀ f ∈ alternatives, OpenedAlikeUnless P a b ca cb f.2) :
    OpenedAlikeUnless P a b ca cb (.union alternatives) := by
  intro level id count hagree
  rw [decodeAt_union, decodeAt_union]
  refine SameUnless.bind ?_ fun members _ ↦ .refl _
  refine openedAlike_struct hconfigs (fun f hf ↦ ?_) level id count hagree
  rcases List.mem_cons.1 hf with rfl | hf
  · exact openedAlike_fixed hconfigs _
  · exact h f hf

include hconfigs in
/-- Vectors from which on two chunks agree are opened alike, as columns of any type. The induction
is on the type. -/
theorem openedAlikeUnless (t : LogicalType) : OpenedAlikeUnless P a b ca cb t := by
  induction t using LogicalType.inductionOn with
  | fixed kind => exact openedAlike_fixed hconfigs kind
  | string kind => exact openedAlike_string hconfigs kind
  | decimal type => exact openedAlike_decimal hconfigs type
  | enumeration type =>
    exact openedAlike_leaf hconfigs (fun _ _ _ _ _ ↦ rfl) fun _ _ hagree ↦ by rw [hagree.slots_eq]
  | list element ih => exact openedAlike_list hconfigs ih
  | struct fields ih => exact openedAlike_struct hconfigs ih
  | map key value ihKey ihValue => exact openedAlike_map hconfigs ihKey ihValue
  | array element length ih => exact openedAlike_array hconfigs ih
  | union alternatives ih => exact openedAlike_union hconfigs ih
  | other id => exact openedAlike_leaf hconfigs (fun _ _ _ _ _ ↦ rfl) fun _ _ _ ↦ rfl

end Column

/-! ### Columns of views -/

/-- Column `index` is the same vector in both chunks, and so are the vectors below it. -/
structure Chunk.SameColumn (a b : Chunk) (index : Nat) : Prop where
  rowCount_eq : a.rowCount = b.rowCount
  agree : ∃ id, a.columns[index]? = some id ∧ b.columns[index]? = some id ∧ a.AgreeFrom b id

namespace View

variable {a b : Chunk} {config : DecodeConfig} {va vb : View} {index : Nat}

theorem eq_of_ofChunk (h : ofChunk a config = .ok va) : va = ⟨a, config⟩ := by
  obtain ⟨-, -, h⟩ := bind_eq_ok_iff.1 h
  obtain ⟨-, -, h⟩ := bind_eq_ok_iff.1 h
  exact (Except.ok.inj h).symm

/-- Columns are isolated. If a column is the same in two chunks, then it is the same when it is
opened, with the same rows, or it cannot be opened for the same reason, whatever the other columns
of the chunks are. -/
theorem column_eq_of_sameColumn (ha : ofChunk a config = .ok va) (hb : ofChunk b config = .ok vb)
    (hsame : a.SameColumn b index) : va.column index = vb.column index := by
  obtain rfl := eq_of_ofChunk ha
  obtain rfl := eq_of_ofChunk hb
  obtain ⟨id, hida, hidb, hagree⟩ := hsame.agree
  have hvector : ∀ {c : Chunk}, c.columns[index]? = some id →
      (View.mk c config).columnVector index = .ok id := by
    intro c hid
    obtain ⟨hlt, -⟩ := List.getElem?_eq_some_iff.1 hid
    rw [columnVector, columnCount, Outcome.require_eq_ok_iff.2 (decide_eq_true hlt), ok_bind,
      Chunk.column, hid]
  have hconfig : Column.ConfigsAgree (fun _ ↦ False) config config := ⟨rfl, fun _ ↦ .refl _⟩
  rw [column, column, hvector hida, hvector hidb, ok_bind, ok_bind, Column.decodeReported,
    Column.decodeReported, Chunk.logicalType, Chunk.logicalType, hagree.vector_eq, rowCount,
    rowCount, hsame.rowCount_eq]
  exact congrArg _ (funext fun t ↦ (Column.openedAlikeUnless hconfig t _ _ _ hagree).eq)

/-- One row of two columns: the list of 5 and 6, and the given vector. -/
def listBeside (other : RawVector) : Chunk where
  vectors := #[
    { type := LogicalType.tagType, data := #[5, 6] },
    { type := .list LogicalType.tagType
      data := ([0, 2].flatMap (LittleEndian.ofNat 8)).toArray
      children := [0]
      childCount := 2 },
    other]
  columns := [1, 2]
  rowCount := 1

theorem sameColumn_listBeside (v w : RawVector) :
    (listBeside v).SameColumn (listBeside w) 0 := by
  refine ⟨rfl, 1, rfl, rfl, rfl, rfl, fun i hi ↦ ?_⟩
  have hlist : i = 1 ∨ i = 0 := by
    induction hi with
    | refl => exact .inl rfl
    | tail _ hstep ih =>
      obtain ⟨u, hu, hchild⟩ := hstep
      rcases ih with rfl | rfl
      · obtain rfl := Option.some.inj hu
        exact .inr (List.mem_singleton.1 hchild)
      · obtain rfl := Option.some.inj hu
        cases hchild
  rcases hlist with rfl | rfl <;> rfl

/-- The list is read beside a vector of a type that nothing decodes as it is beside one that is too
short. -/
theorem listBeside_column_eq :
    let a := listBeside { type := .other .any }
    let b := listBeside { type := LogicalType.tagType }
    ofChunk a {} = .ok ⟨a, {}⟩ ∧ ofChunk b {} = .ok ⟨b, {}⟩ ∧ a.SameColumn b 0 ∧
      (View.mk a {}).column 0 = (View.mk b {}).column 0 ∧
      (∃ c, (View.mk a {}).column 0 = .ok c ∧ c.len = 1) ∧
      (View.mk a {}).column 1 = Outcome.refuse (.unsupportedType "ANY") ∧
      (View.mk b {}).column 1 = Outcome.refuse (.missing "vector data") := by
  intro a b
  have ha : ofChunk a {} = .ok ⟨a, {}⟩ := rfl
  have hb : ofChunk b {} = .ok ⟨b, {}⟩ := rfl
  have hsame : a.SameColumn b 0 := sameColumn_listBeside _ _
  exact ⟨ha, hb, hsame, column_eq_of_sameColumn ha hb hsame, ⟨_, rfl, rfl⟩, rfl, rfl⟩

end View

end Columnar
