import Mathlib.Data.List.Nodup
import Mathlib.Order.Defs.Unbundled
import Columnar.Proofs.VectorParts

/-!
# The arena of a builder

Encoding a vector adds vectors and payloads behind those that are there, and does nothing else to the
builder (`Encoder.addsVectors_addVector`). This is so whether it succeeds or fails midway, and so it
is said of the builder that a step leaves behind in either case (`Encoder.Preserves`).

If it succeeds, the vectors that were added are a tree (`Encoder.isTree_addVector`): the last of them
is the one that was asked for, children stand before their parents, and every other vector has one
parent. Until the root of the tree is added, there is a forest (`Builder.IsForest`) with the vectors
that have no parent yet as its roots, and adding a vector makes the last few of them its children.
-/

namespace Columnar

/-! ### Heaps that are filled -/

namespace Heap

/-- The other heap has more payloads, each of which was put where `place` says. -/
inductive Placed (place : Heap → Nat → Nat) (heap : Heap) : Heap → Prop where
  | refl : Placed place heap heap
  | push {heap' : Heap} (h : Placed place heap heap') (bytes : Array UInt8) :
    Placed place heap (heap'.push ⟨place heap' bytes.size, bytes⟩)

namespace Placed

variable {place : Heap → Nat → Nat} {heap heap' heap'' : Heap}

theorem trans (h : Placed place heap heap') (h' : Placed place heap' heap'') :
    Placed place heap heap'' := by
  induction h' with
  | refl => exact h
  | push _ bytes ih => exact ih.push bytes

theorem isPrefix (h : Placed place heap heap') : heap.toList <+: heap'.toList := by
  induction h with
  | refl => exact List.prefix_rfl
  | push _ bytes ih =>
    rw [Array.toList_push]
    exact ih.trans (List.prefix_append _ _)

end Placed

/-- The payloads lie one after the other. -/
def Laid (heap : Heap) : Prop :=
  heap.toList.Pairwise fun p q ↦ p.address + p.bytes.size ≤ q.address

/-- Payloads that lie one after the other have no byte in common. -/
theorem Laid.apart {heap : Heap} (h : heap.Laid) : heap.Apart := by
  refine List.Pairwise.imp (fun {p q} hle address ↦ ?_) h
  rw [Payload.byteAt?_eq_none_iff, Payload.byteAt?_eq_none_iff]
  omega

section BehindLast

variable {first gap : Nat} {heap heap' : Heap}

theorem le_behindLast (h : heap.Laid) {p : Payload} (hp : p ∈ heap) (size : Nat) :
    p.address + p.bytes.size ≤ behindLast first gap heap size := by
  rcases List.eq_nil_or_concat' heap.toList with hnil | ⟨init, last, hsplit⟩
  · have := hp.val
    simp [hnil] at this
  · have hback : heap.back? = some last := by
      rw [← Array.getLast?_toList, hsplit, List.getLast?_concat]
    have hlast : behindLast first gap heap size = last.address + last.bytes.size + gap := by
      rw [behindLast, hback]
    rw [Laid, hsplit, List.pairwise_append] at h
    -- The last payload is behind all others, and what is placed is behind the last payload.
    have hmem : p ∈ init ++ [last] := hsplit ▸ hp.val
    rcases List.mem_append.1 hmem with hinit | hinit
    · have := h.2.2 p hinit last (by simp)
      omega
    · obtain rfl := List.mem_singleton.1 hinit
      omega

/-- Payloads that are put behind the last one lie one after the other. -/
theorem Placed.laid (h : Placed (behindLast first gap) heap heap') (hlaid : heap.Laid) :
    heap'.Laid := by
  induction h with
  | refl => exact hlaid
  | push _ bytes ih =>
    rw [Laid, Array.toList_push, List.pairwise_append]
    refine ⟨ih, by simp, fun q hq r hr ↦ ?_⟩
    obtain rfl := List.mem_singleton.1 hr
    exact le_behindLast ih ⟨hq⟩ bytes.size

/-- The payloads that are added lie behind the address at which the first one of them is put. -/
theorem Placed.behind (h : Placed (behindLast first gap) heap heap') (size : Nat) :
    behindLast first gap heap size ≤ behindLast first gap heap' size ∧
      ∀ p ∈ heap', p ∈ heap ∨ behindLast first gap heap size ≤ p.address := by
  induction h with
  | refl => exact ⟨Nat.le_refl _, fun _ hp ↦ .inl hp⟩
  | @push heap' _ bytes ih =>
    obtain ⟨hle, hbehind⟩ := ih
    refine ⟨?_, fun p hp ↦ ?_⟩
    · rw [behindLast.eq_def first gap (heap'.push _), Array.back?_push]
      show _ ≤ behindLast first gap heap' size + bytes.size + gap
      omega
    · rcases Array.mem_push.1 hp with hp | rfl
      · exact hbehind p hp
      · exact .inr hle

end BehindLast

end Heap

/-! ### What stays -/

namespace Builder

/-- The other builder has more payloads, and is the same otherwise. -/
structure AddsPayloads (b b' : Builder) : Prop where
  rest : { b with heap := b'.heap } = b'
  placed : b.heap.Placed b.addressIn b'.heap

/-- All vectors, columns and payloads are in the same positions later. What is added to the heap was
put there by the allocator. -/
structure Precedes (b b' : Builder) : Prop where
  vectors : b.vectors.toList <+: b'.vectors.toList
  columns : b.columns <+: b'.columns
  booleanWidth_eq : b'.booleanWidth = b.booleanWidth
  listPadding_eq : b'.listPadding = b.listPadding
  addressIn_eq : b'.addressIn = b.addressIn
  placed : b.heap.Placed b.addressIn b'.heap

/-- The other builder has more vectors and payloads, and is the same otherwise. -/
structure AddsVectors (b b' : Builder) : Prop extends Precedes b b' where
  columns_eq : b'.columns = b.columns
  rowCount_eq : b'.rowCount? = b.rowCount?

variable {a b c : Builder}

theorem Precedes.refl (b : Builder) : b.Precedes b :=
  ⟨List.prefix_rfl, List.prefix_rfl, rfl, rfl, rfl, .refl⟩

theorem Precedes.trans (h : a.Precedes b) (h' : b.Precedes c) : a.Precedes c where
  vectors := h.vectors.trans h'.vectors
  columns := h.columns.trans h'.columns
  booleanWidth_eq := h'.booleanWidth_eq.trans h.booleanWidth_eq
  listPadding_eq := h'.listPadding_eq.trans h.listPadding_eq
  addressIn_eq := h'.addressIn_eq.trans h.addressIn_eq
  placed := h.placed.trans (h.addressIn_eq ▸ h'.placed)

theorem Precedes.heap (h : a.Precedes b) : a.heap.toList <+: b.heap.toList := h.placed.isPrefix

theorem AddsVectors.refl (b : Builder) : b.AddsVectors b := ⟨.refl b, rfl, rfl⟩

theorem AddsVectors.trans (h : a.AddsVectors b) (h' : b.AddsVectors c) : a.AddsVectors c :=
  ⟨h.toPrecedes.trans h'.toPrecedes, h'.columns_eq.trans h.columns_eq,
    h'.rowCount_eq.trans h.rowCount_eq⟩

theorem AddsPayloads.refl (b : Builder) : b.AddsPayloads b := ⟨rfl, .refl⟩

theorem AddsPayloads.addressIn_eq (h : b.AddsPayloads c) : c.addressIn = b.addressIn := by
  rw [← h.rest]
  rfl

theorem AddsPayloads.trans (h : a.AddsPayloads b) (h' : b.AddsPayloads c) : a.AddsPayloads c where
  rest := by rw [← h'.rest, ← h.rest]
  placed := h.placed.trans (h.addressIn_eq ▸ h'.placed)

theorem AddsPayloads.addsVectors (h : b.AddsPayloads c) : b.AddsVectors c := by
  have hrest := h.rest
  have hvectors : c.vectors = b.vectors := by rw [← hrest]
  have hcolumns : c.columns = b.columns := by rw [← hrest]
  exact ⟨⟨hvectors ▸ List.prefix_rfl, hcolumns ▸ List.prefix_rfl, by rw [← hrest],
    by rw [← hrest], h.addressIn_eq, h.placed⟩, hcolumns, by rw [← hrest]⟩

/-- A vector stays where it is. -/
theorem Precedes.getElem? (h : b.Precedes c) {id : Nat} {v : RawVector}
    (hv : b.vectors[id]? = some v) : c.vectors[id]? = some v := by
  obtain ⟨new, hnew⟩ := h.vectors
  rw [← Array.getElem?_toList] at hv ⊢
  obtain ⟨hid, -⟩ := List.getElem?_eq_some_iff.1 hv
  rw [← hnew, List.getElem?_append_left hid, hv]

instance : IsPreorder Builder AddsPayloads := { refl := .refl, trans := fun _ _ _ ↦ .trans }

instance : IsPreorder Builder AddsVectors := { refl := .refl, trans := fun _ _ _ ↦ .trans }

instance : IsPreorder Builder Precedes := { refl := .refl, trans := fun _ _ _ ↦ .trans }

end Builder

namespace Encoder

section Preserves

variable {α β : Type} {R : Builder → Builder → Prop} [IsPreorder Builder R]

/-- Whether or not the step succeeds, the builder before it is related to the one after it. -/
def Preserves (R : Builder → Builder → Prop) (x : Encoder α) : Prop := ∀ b, R b (x.run b).2

omit [IsPreorder Builder R] in
theorem Preserves.of_run {x : Encoder α} (h : Preserves R x) {b b' : Builder}
    {r : Except EncodeFailure α} (hrun : x.run b = (r, b')) : R b b' := by
  have hb := h b
  rwa [hrun] at hb

theorem preserves_pure (a : α) : Preserves R (pure a : Encoder α) := fun b ↦ refl_of R b

theorem preserves_get : Preserves R (get : Encoder Builder) := fun b ↦ refl_of R b

theorem preserves_lift (x : Encoding α) : Preserves R (liftM x : Encoder α) := fun b ↦ refl_of R b

theorem preserves_throw (failure : EncodeFailure) : Preserves R (throw failure : Encoder α) :=
  fun b ↦ refl_of R b

theorem Preserves.bind {x : Encoder α} {f : α → Encoder β} (hx : Preserves R x)
    (hf : ∀ a, Preserves R (f a)) : Preserves R (x >>= f) := by
  intro b
  rcases hrun : x.run b with ⟨failure | a, b'⟩
  · rw [run_bind_error hrun]
    exact hx.of_run hrun
  · rw [run_bind hrun]
    exact trans_of R (hx.of_run hrun) (hf a b')

theorem Preserves.mapM {f : α → Encoder β} {as : List α} (h : ∀ a ∈ as, Preserves R (f a)) :
    Preserves R (as.mapM f) := by
  induction as with
  | nil => exact preserves_pure _
  | cons a as ih =>
    obtain ⟨ha, has⟩ := List.forall_mem_cons.1 h
    rw [List.mapM_cons]
    exact ha.bind fun _ ↦ (ih has).bind fun _ ↦ preserves_pure _

omit [IsPreorder Builder R] in
theorem Preserves.imp {S : Builder → Builder → Prop} {x : Encoder α} (h : Preserves R x)
    (himp : ∀ b b', R b b' → S b b') : Preserves S x := fun b ↦ himp _ _ (h b)

omit [IsPreorder Builder R] in
theorem Preserves.adapt {x : Encoder α} (h : Preserves R x) (f : EncodeFailure → EncodeFailure) :
    Preserves R (x.adapt f) := h

end Preserves

open Builder (AddsPayloads AddsVectors Precedes)

theorem addsPayloads_allocate (bytes : List UInt8) : Preserves AddsPayloads (allocate bytes) := by
  intro b
  exact ⟨rfl, Heap.Placed.refl.push bytes.toArray⟩

theorem addsPayloads_stringSlot (kind : StringKind) (l : Literal) :
    Preserves AddsPayloads (stringSlot kind l) := by
  unfold stringSlot
  split
  · exact preserves_pure _
  · split
    · exact preserves_pure _
    · exact preserves_throw _
  · refine (preserves_lift _).bind fun bytes ↦ ?_
    split
    · exact preserves_pure _
    · exact (addsPayloads_allocate bytes).bind fun _ ↦ preserves_pure _

/-- Until its children are added, a vector has put nothing but payloads into the chunk. -/
theorem addsPayloads_ownData (b : Builder) (t : LogicalType) (values : List Literal) :
    Preserves AddsPayloads (ownData b t values) := by
  cases t with
  | string kind =>
    exact (Preserves.mapM fun l _ ↦ addsPayloads_stringSlot kind l).bind fun _ ↦ preserves_pure _
  | _ => exact preserves_lift _

theorem addsVectors_push (v : RawVector) : Preserves AddsVectors (push v) := by
  intro b
  refine ⟨⟨?_, List.prefix_rfl, rfl, rfl, rfl, .refl⟩, rfl, rfl⟩
  show b.vectors.toList <+: (b.vectors.push v).toList
  rw [Array.toList_push]
  exact List.prefix_append _ _

/-- Encoding a vector, successful or not, only adds vectors and payloads. The induction is on the
type, as all that is done between the parts of a vector is adding payloads and, at the end, the
vector. -/
theorem addsVectors_addVector (t : LogicalType) (values : List Literal) :
    Preserves AddsVectors (addVector t values) := by
  induction t using LogicalType.inductionOnParts generalizing values with
  | step t ih =>
    rw [addVector_eq]
    refine preserves_get.bind fun b ↦ ?_
    refine Preserves.bind ((addsPayloads_ownData b t values).imp fun _ _ ↦
      AddsPayloads.addsVectors) fun data ↦ ?_
    refine (Preserves.mapM fun part hpart ↦ ?_).bind fun children ↦ addsVectors_push _
    exact ih _ (LogicalType.fst_mem_partTypes hpart) part.2

theorem precedes_addVector (t : LogicalType) (values : List Literal) :
    Preserves Precedes (addVector t values) :=
  (addsVectors_addVector t values).imp fun _ _ ↦ AddsVectors.toPrecedes

theorem precedes_expectRows (count : Nat) : Preserves Precedes (expectRows count) := by
  intro b
  rw [expectRows, run_bind (show (get : Encoder Builder).run b = (.ok b, b) from rfl)]
  split
  · exact ⟨List.prefix_rfl, List.prefix_rfl, rfl, rfl, rfl, .refl⟩
  · split
    · exact .refl b
    · exact .refl b

theorem precedes_appendColumn (id : Nat) : Preserves Precedes (appendColumn id) := fun _ ↦
  ⟨List.prefix_rfl, List.prefix_append _ _, rfl, rfl, rfl, .refl⟩

/-- Adding a column, successful or not, leaves everything before it in place. -/
theorem precedes_addColumn (t : LogicalType) (values : List Literal) :
    Preserves Precedes (addColumn t values) :=
  (precedes_expectRows _).bind fun _ ↦ ((precedes_addVector t values).adapt _).bind fun id ↦
    precedes_appendColumn id

/-! ### What a step gives -/

section Yields

variable {α β : Type} {b : Builder}

/-- If the step succeeds, then `post` holds of what it gives. -/
def Yields (x : Encoder α) (b : Builder) (post : α → Builder → Prop) : Prop :=
  ∀ a b', x.run b = (.ok a, b') → post a b'

theorem yields_pure {a : α} {post : α → Builder → Prop} (h : post a b) :
    Yields (pure a : Encoder α) b post := by
  intro a' b' hrun
  obtain ⟨ha, rfl⟩ := Prod.mk.inj hrun
  obtain rfl := Except.ok.inj ha
  exact h

theorem yields_throw {post : α → Builder → Prop} (failure : EncodeFailure) :
    Yields (throw failure : Encoder α) b post := by
  intro a b' hrun
  cases hrun

theorem Yields.bind {x : Encoder α} {f : α → Encoder β} {post : β → Builder → Prop}
    (h : Yields x b fun a b' ↦ Yields (f a) b' post) : Yields (x >>= f) b post := by
  intro c b' hrun
  obtain ⟨a, b₁, hx, hf⟩ := run_bind_eq_ok_iff.1 hrun
  exact h a b₁ hx c b' hf

theorem yields_get_bind {f : Builder → Encoder β} {post : β → Builder → Prop}
    (h : Yields (f b) b post) : Yields (get >>= f) b post :=
  Yields.bind fun a b' hrun ↦ by
    obtain ⟨ha, rfl⟩ := Prod.mk.inj hrun
    obtain rfl := Except.ok.inj ha
    exact h

/-- A map keeps an invariant of what is done and what has come of it, if every step does. -/
theorem yields_mapM {f : α → Encoder β} {I : List α → List β → Builder → Prop} {as : List α}
    (done : List α) (bs : List β) (h : ∀ done, ∀ a ∈ as, ∀ bs b, I done bs b →
      Yields (f a) b fun x b' ↦ I (done ++ [a]) (bs ++ [x]) b') (hI : I done bs b) :
    Yields (as.mapM f) b fun xs b' ↦ I (done ++ as) (bs ++ xs) b' := by
  induction as generalizing done bs b with
  | nil => exact yields_pure (by simpa using hI)
  | cons a as ih =>
    rw [List.mapM_cons]
    refine Yields.bind fun x b₁ hx ↦ Yields.bind fun xs b₂ hxs ↦ yields_pure ?_
    have hstep := h done a (by simp) bs b hI x b₁ hx
    have hrest := ih _ _ (fun done a ha ↦ h done a (by simp [ha])) hstep xs b₂ hxs
    simpa using hrest

/-- What is known of the builder when a vector has its bytes, and is kept by all of its parts, is known
when the vector is added. -/
theorem yields_addVector {t : LogicalType} {values : List Literal}
    {I : Array UInt8 → List (LogicalType × List Literal) → List Nat → Builder → Prop}
    {post : Nat → Builder → Prop}
    (hown : Yields (ownData b t values) b fun data b' ↦ I data [] [] b')
    (hpart : ∀ data done, ∀ part ∈ LogicalType.partsOf b.listPadding t values, ∀ ids b',
      I data done ids b' → Yields (addVector part.1 part.2) b' fun id b'' ↦
        I data (done ++ [part]) (ids ++ [id]) b'')
    (hpush : ∀ data ids b', I data (LogicalType.partsOf b.listPadding t values) ids b' →
      post b'.vectors.size { b' with vectors := b'.vectors.push (vectorOf b t values data ids) }) :
    Yields (addVector t values) b post := by
  rw [addVector_eq]
  refine yields_get_bind (Yields.bind fun data b₁ hdata ↦ Yields.bind ?_)
  have hparts := yields_mapM [] [] (hpart data) (hown data b₁ hdata)
  intro ids b₂ hids id b₃ hrun
  obtain ⟨hid, rfl⟩ := Prod.mk.inj hrun
  obtain rfl := Except.ok.inj hid
  exact hpush data ids b₂ (hparts ids b₂ hids)

end Yields

end Encoder

/-! ### Trees of vectors -/

namespace Builder

/-- The vectors from position `start` on are a forest with the given roots: children stand before
their parents, and each of the vectors is a child of one other, once, or one of the roots. -/
structure IsForest (b : Builder) (start : Nat) (roots : List Nat) : Prop where
  start_le : start ≤ b.vectors.size
  child_lt : ∀ id v, start ≤ id → b.vectors[id]? = some v → ∀ child ∈ v.children, child < id
  once : ((b.vectors.toList.drop start).flatMap (·.children) ++ roots).Perm
    (List.range' start (b.vectors.size - start))

namespace IsForest

variable {b : Builder} {start : Nat} {roots children : List Nat}

theorem nil (b : Builder) : b.IsForest b.vectors.size [] where
  start_le := Nat.le_refl _
  child_lt id v hid hv := by
    obtain ⟨hlt, -⟩ := Array.getElem?_eq_some_iff.1 hv
    omega
  once := by
    rw [List.drop_eq_nil_of_le (by simp), Nat.sub_self]
    exact .nil

theorem of_vectors_eq {b' : Builder} (h : b.IsForest start roots) (heq : b'.vectors = b.vectors) :
    b'.IsForest start roots := by
  obtain ⟨hstart, hchild, honce⟩ := h
  exact ⟨heq ▸ hstart, heq ▸ hchild, heq ▸ honce⟩

/-- The roots are vectors from `start` on. -/
theorem root_mem (h : b.IsForest start roots) {root : Nat} (hroot : root ∈ roots) :
    start ≤ root ∧ root < b.vectors.size := by
  have hmem := h.once.mem_iff.1 (List.mem_append_right _ hroot)
  have hle := h.start_le
  rw [List.mem_range'_1] at hmem
  omega

/-- A vector is added as the parent of the last roots. -/
theorem push (h : b.IsForest start (roots ++ children)) {v : RawVector} (hv : v.children = children) :
    IsForest { b with vectors := b.vectors.push v } start (roots ++ [b.vectors.size]) where
  start_le := by
    have := h.start_le
    rw [Array.size_push]
    omega
  child_lt id w hid hw child hchild := by
    rcases Nat.lt_trichotomy id b.vectors.size with hlt | rfl | hlt
    · rw [Array.getElem?_push_lt hlt, ← Array.getElem?_eq_getElem hlt] at hw
      exact h.child_lt id w hid hw child hchild
    · rw [Array.getElem?_push_size] at hw
      obtain rfl := Option.some.inj hw
      exact (h.root_mem (List.mem_append_right _ (hv ▸ hchild))).2
    · rw [Array.getElem?_eq_none (by rw [Array.size_push]; omega)] at hw
      cases hw
  once := by
    have hstart := h.start_le
    have hlen : start ≤ b.vectors.toList.length := by simpa using hstart
    have hsize : b.vectors.size + 1 - start = b.vectors.size - start + 1 := by omega
    have hlast : start + (b.vectors.size - start) = b.vectors.size := by omega
    rw [Array.toList_push, List.drop_append_of_le_length hlen, List.flatMap_append, Array.size_push,
      hsize, List.range'_1_concat, hlast, List.flatMap_singleton, hv]
    -- The last roots are counted as children now.
    have hmove : ∀ old : List Nat, (old ++ children ++ (roots ++ [b.vectors.size])).Perm
        (old ++ (roots ++ children) ++ [b.vectors.size]) := by
      intro old
      rw [← List.append_assoc, List.append_assoc old]
      exact (List.perm_append_comm.append_left old).append_right _
    exact (hmove _).trans (h.once.append_right _)

theorem getElem?_drop_eq_some_iff {k : Nat} {v : RawVector} :
    (b.vectors.toList.drop start)[k]? = some v ↔ b.vectors[start + k]? = some v := by
  rw [List.getElem?_drop, Array.getElem?_toList]

/-- No vector is twice among the children. -/
theorem nodup_flatMap (h : b.IsForest start roots) :
    ((b.vectors.toList.drop start).flatMap (·.children)).Nodup :=
  (List.nodup_append.1 (h.once.nodup_iff.2 List.nodup_range')).1

theorem children_nodup (h : b.IsForest start roots) {id : Nat} {v : RawVector} (hstart : start ≤ id)
    (hv : b.vectors[id]? = some v) : v.children.Nodup := by
  obtain ⟨k, rfl⟩ := Nat.exists_eq_add_of_le hstart
  exact (List.nodup_flatMap.1 h.nodup_flatMap).1 v
    (List.mem_of_getElem? (getElem?_drop_eq_some_iff.2 hv))

/-- Children are in the forest with their parents. -/
theorem start_le_child (h : b.IsForest start roots) {id child : Nat} {v : RawVector}
    (hstart : start ≤ id) (hv : b.vectors[id]? = some v) (hchild : child ∈ v.children) :
    start ≤ child := by
  obtain ⟨k, rfl⟩ := Nat.exists_eq_add_of_le hstart
  have hmem := List.mem_flatMap.2
    ⟨v, List.mem_of_getElem? (getElem?_drop_eq_some_iff.2 hv), hchild⟩
  exact (List.mem_range'_1.1 (h.once.mem_iff.1 (List.mem_append_left _ hmem))).1

/-- What is no root has one parent. -/
theorem existsUnique_parent (h : b.IsForest start roots) {id : Nat} (hstart : start ≤ id)
    (hid : id < b.vectors.size) (hroot : id ∉ roots) :
    ∃! parent, start ≤ parent ∧ ∃ v, b.vectors[parent]? = some v ∧ id ∈ v.children := by
  have hmem : id ∈ (b.vectors.toList.drop start).flatMap (·.children) ++ roots :=
    h.once.mem_iff.2 (List.mem_range'_1.2 (by omega))
  obtain ⟨v, hv, hchild⟩ := List.mem_flatMap.1 ((List.mem_append.1 hmem).resolve_right hroot)
  obtain ⟨k, hk⟩ := List.mem_iff_getElem?.1 hv
  refine ⟨start + k, ⟨Nat.le_add_right _ _, v, getElem?_drop_eq_some_iff.1 hk, hchild⟩, ?_⟩
  rintro parent ⟨hparent, w, hw, hchild'⟩
  obtain ⟨j, rfl⟩ := Nat.exists_eq_add_of_le hparent
  have hj := getElem?_drop_eq_some_iff.2 hw
  by_contra hne
  -- Two parents would have different positions, but the children of these are different.
  obtain ⟨hkl, rfl⟩ := List.getElem?_eq_some_iff.1 hk
  obtain ⟨hjl, rfl⟩ := List.getElem?_eq_some_iff.1 hj
  have hapart := List.pairwise_iff_getElem.1 (List.nodup_flatMap.1 h.nodup_flatMap).2
  rcases Nat.lt_or_gt_of_ne (show j ≠ k by omega) with hlt | hlt
  · exact hapart j k hjl hkl hlt hchild' hchild
  · exact hapart k j hkl hjl hlt hchild hchild'

end IsForest

/-- The vectors from position `start` on are a tree: the last of them is its root, all children stand
before their parents, and each of the other vectors is the child of one vector. -/
structure IsTree (b : Builder) (start root : Nat) : Prop where
  size_eq : b.vectors.size = root + 1
  start_le : start ≤ root
  child_mem : ∀ parent v, start ≤ parent → b.vectors[parent]? = some v → v.children.Nodup ∧
    ∀ child ∈ v.children, start ≤ child ∧ child < parent
  parent : ∀ child, start ≤ child → child < root →
    ∃! parent, start ≤ parent ∧ ∃ v, b.vectors[parent]? = some v ∧ child ∈ v.children

/-- A forest is a tree if its last vector is its root. -/
theorem IsForest.isTree {b : Builder} {start root : Nat} (h : b.IsForest start [root])
    (hsize : b.vectors.size = root + 1) : b.IsTree start root where
  size_eq := hsize
  start_le := (h.root_mem (List.mem_singleton_self root)).1
  child_mem _ v hparent hv := ⟨h.children_nodup hparent hv, fun child hchild ↦
    ⟨h.start_le_child hparent hv hchild, h.child_lt _ v hparent hv child hchild⟩⟩
  parent child hchild hlt := h.existsUnique_parent hchild (by omega) fun hroot ↦
    Nat.ne_of_lt hlt (List.mem_singleton.1 hroot)

end Builder

namespace Encoder

open Builder (IsForest IsTree)

/-- A vector that is encoded becomes the last root of a forest. The induction is on the type: the
parts of the vector become roots one by one, and then its children. -/
theorem isForest_addVector (t : LogicalType) (values : List Literal) {b : Builder} {start : Nat}
    {roots : List Nat} (h : b.IsForest start roots) :
    Yields (addVector t values) b fun id b' ↦
      b'.vectors.size = id + 1 ∧ b'.IsForest start (roots ++ [id]) := by
  induction t using LogicalType.inductionOnParts generalizing values b roots with
  | step t ih =>
    refine yields_addVector (I := fun _ _ ids b' ↦ b'.IsForest start (roots ++ ids)) ?_ ?_ ?_
    · intro data b₁ hdata
      show b₁.IsForest start (roots ++ [])
      rw [List.append_nil]
      exact h.of_vectors_eq (by rw [← ((addsPayloads_ownData b t values).of_run hdata).rest])
    · intro _ _ part hpart ids b' hids id b'' hrun
      show b''.IsForest start (roots ++ (ids ++ [id]))
      rw [← List.append_assoc]
      exact (ih _ (LogicalType.fst_mem_partTypes hpart) part.2 hids id b'' hrun).2
    · exact fun _ _ b' hforest ↦ ⟨Array.size_push _, hforest.push rfl⟩

/-- The vectors that are added for one that is asked for are a tree. -/
theorem isTree_addVector (t : LogicalType) (values : List Literal) (b : Builder) :
    Yields (addVector t values) b fun id b' ↦ b'.IsTree b.vectors.size id := by
  intro id b' hrun
  obtain ⟨hsize, hforest⟩ := isForest_addVector t values (.nil b) id b' hrun
  exact hforest.isTree hsize

end Encoder

end Columnar
