import Columnar.Builder.Vector
import Columnar.Proofs.Packing

/-!
# Steps of encoding

What a step of encoding leaves behind. Nothing that is there is moved or changed
(`Builder.Grows`), so whatever was said about a vector or a payload stays true, and holds of every
chunk that the builder ends up as (`Chunk.Extends`).

`Encoder.Ensures` is the specification of a step that succeeds, with a law for each way to put steps
together.
-/

namespace Columnar

namespace Builder

/-- Everything of a chunk under construction is still there later, in the same place. -/
structure Grows (b b' : Builder) : Prop where
  vectors : ∀ (id : Nat) (v : RawVector), b.vectors[id]? = some v → b'.vectors[id]? = some v
  heap : ∀ p ∈ b.heap, p ∈ b'.heap
  booleanWidth_eq : b'.booleanWidth = b.booleanWidth
  listPadding_eq : b'.listPadding = b.listPadding
  columns_eq : b'.columns = b.columns
  rowCount_eq : b'.rowCount? = b.rowCount?

namespace Grows

theorem refl (b : Builder) : b.Grows b := ⟨fun _ _ h ↦ h, fun _ h ↦ h, rfl, rfl, rfl, rfl⟩

theorem trans {a b c : Builder} (h : a.Grows b) (h' : b.Grows c) : a.Grows c where
  vectors id v hv := h'.vectors id v (h.vectors id v hv)
  heap p hp := h'.heap p (h.heap p hp)
  booleanWidth_eq := h'.booleanWidth_eq.trans h.booleanWidth_eq
  listPadding_eq := h'.listPadding_eq.trans h.listPadding_eq
  columns_eq := h'.columns_eq.trans h.columns_eq
  rowCount_eq := h'.rowCount_eq.trans h.rowCount_eq

end Grows

end Builder

/-- The chunk has all vectors and payloads of the builder, in their places, and its payloads can be
told apart by addresses of 64 bits. -/
structure Chunk.Extends (c : Chunk) (b : Builder) : Prop where
  vectors : ∀ (id : Nat) (v : RawVector), b.vectors[id]? = some v → c.vectors[id]? = some v
  heap : ∀ p ∈ b.heap, p ∈ c.heap
  apart : c.heap.Apart
  addressable : c.heap.Addressable
  booleanWidth_eq : c.booleanWidth = b.booleanWidth

/-- A chunk that extends a builder extends what it has grown from. -/
theorem Chunk.Extends.of_grows {c : Chunk} {b b' : Builder} (h : c.Extends b') (hg : b.Grows b') :
    c.Extends b where
  vectors id v hv := h.vectors id v (hg.vectors id v hv)
  heap p hp := h.heap p (hg.heap p hp)
  apart := h.apart
  addressable := h.addressable
  booleanWidth_eq := h.booleanWidth_eq.trans hg.booleanWidth_eq

namespace Encoder

variable {α β : Type} {b : Builder}

/-- The step succeeds and only adds to the chunk, and then `post` holds of what it gives. -/
def Ensures (x : Encoder α) (b : Builder) (post : α → Builder → Prop) : Prop :=
  ∃ a b', x.run b = (.ok a, b') ∧ b.Grows b' ∧ post a b'

theorem run_bind {x : Encoder α} {f : α → Encoder β} {a : α} {b' : Builder}
    (h : x.run b = (.ok a, b')) : (x >>= f).run b = (f a).run b' := by
  show (x.run b >>= fun r ↦ ExceptT.bindCont f r.1 r.2) = _
  rw [h]
  rfl

theorem run_bind_error {x : Encoder α} {f : α → Encoder β} {b' : Builder} {failure : EncodeFailure}
    (h : x.run b = (.error failure, b')) : (x >>= f).run b = (.error failure, b') := by
  show (x.run b >>= fun r ↦ ExceptT.bindCont f r.1 r.2) = _
  rw [h]
  rfl

/-- Two steps succeed if the first one does, and the second one where the first has ended. -/
theorem run_bind_eq_ok_iff {x : Encoder α} {f : α → Encoder β} {c : β} {b'' : Builder} :
    (x >>= f).run b = (.ok c, b'') ↔
      ∃ a b', x.run b = (.ok a, b') ∧ (f a).run b' = (.ok c, b'') := by
  rcases hx : x.run b with ⟨failure | a, b'⟩
  · rw [run_bind_error hx]
    refine iff_of_false ?_ ?_
    · rintro ⟨⟩
    · rintro ⟨_, _, ⟨⟩, _⟩
  · rw [run_bind hx]
    refine ⟨fun h ↦ ⟨a, b', rfl, h⟩, ?_⟩
    rintro ⟨_, _, ⟨⟩, h⟩
    exact h

/-- What becomes of failures makes no difference to a step that succeeds. -/
theorem run_adapt_eq_ok_iff {x : Encoder α} {f : EncodeFailure → EncodeFailure} {a : α}
    {b' : Builder} : (x.adapt f).run b = (.ok a, b') ↔ x.run b = (.ok a, b') := by
  show ((x.run b).1.mapError f, (x.run b).2) = (.ok a, b') ↔ _
  rcases x.run b with ⟨failure | a', b₁⟩
  · refine iff_of_false ?_ ?_ <;> rintro ⟨⟩
  · exact Iff.rfl

namespace Ensures

theorem pure {a : α} {post : α → Builder → Prop} (h : post a b) : Ensures (pure a) b post :=
  ⟨a, b, rfl, .refl b, h⟩

theorem bind {x : Encoder α} {f : α → Encoder β} {mid : α → Builder → Prop}
    {post : β → Builder → Prop} (hx : Ensures x b mid)
    (hf : ∀ a b', b.Grows b' → mid a b' → Ensures (f a) b' post) : Ensures (x >>= f) b post := by
  obtain ⟨a, b', hrun, hgrows, hmid⟩ := hx
  obtain ⟨c, b'', hrun', hgrows', hpost⟩ := hf a b' hgrows hmid
  exact ⟨c, b'', (run_bind hrun).trans hrun', hgrows.trans hgrows', hpost⟩

theorem imp {x : Encoder α} {post post' : α → Builder → Prop} (h : Ensures x b post)
    (himp : ∀ a b', b.Grows b' → post a b' → post' a b') : Ensures x b post' := by
  obtain ⟨a, b', hrun, hgrows, hpost⟩ := h
  exact ⟨a, b', hrun, hgrows, himp a b' hgrows hpost⟩

/-- A map ensures of each element what its step does, if that stays true. -/
theorem mapM {f : α → Encoder β} {Q : α → β → Builder → Prop} {as : List α}
    (hQ : ∀ a x b₁ b₂, b₁.Grows b₂ → Q a x b₁ → Q a x b₂)
    (h : ∀ a ∈ as, ∀ b', b.Grows b' → Ensures (f a) b' (Q a)) :
    Ensures (as.mapM f) b fun xs b' ↦ List.Forall₂ (fun a x ↦ Q a x b') as xs := by
  induction as generalizing b with
  | nil => exact .pure .nil
  | cons a as ih =>
    rw [List.mapM_cons]
    refine (h a (by simp) b (.refl b)).bind fun x b₁ hg₁ hx ↦ ?_
    have hrest : ∀ a' ∈ as, ∀ b', b₁.Grows b' → Ensures (f a') b' (Q a') :=
      fun a' ha' b' hg ↦ h a' (by simp [ha']) b' (hg₁.trans hg)
    exact (ih hrest).bind fun xs b₂ hg₂ hxs ↦ .pure (.cons (hQ a x b₁ b₂ hg₂ hx) hxs)

end Ensures

/-! ### Single steps -/

theorem ensures_get : Ensures get b fun s b' ↦ s = b ∧ b' = b := ⟨b, b, rfl, .refl b, rfl, rfl⟩

theorem ensures_lift {x : Encoding α} {a : α} (h : x = .ok a) :
    Ensures (liftM x) b fun a' b' ↦ a' = a ∧ b' = b := by
  rw [h]
  exact ⟨a, b, rfl, .refl b, rfl, rfl⟩

theorem ensures_checked {row : Literal → Encoding α} {values : List Literal} {rows : List α}
    (h : values.mapM row = .ok rows) :
    Ensures (checked row values) b fun rows' b' ↦ rows' = rows ∧ b' = b := by
  rw [checked, h]
  exact ⟨rows, b, rfl, .refl b, rfl, rfl⟩

/-- A vector that is added is there at its position. -/
theorem ensures_push (v : RawVector) : Ensures (push v) b fun id b' ↦ b'.vectors[id]? = some v := by
  refine ⟨b.vectors.size, { b with vectors := b.vectors.push v }, rfl, ?_, by simp⟩
  refine ⟨fun id w hw ↦ ?_, fun _ h ↦ h, rfl, rfl, rfl, rfl⟩
  obtain ⟨hid, -⟩ := Array.getElem?_eq_some_iff.1 hw
  rw [Array.getElem?_push_lt hid, ← Array.getElem?_eq_getElem hid, hw]

/-- A payload that is added is there at its address. -/
theorem ensures_allocate (bytes : List UInt8) :
    Ensures (allocate bytes) b fun address b' ↦ ⟨address, bytes.toArray⟩ ∈ b'.heap := by
  let p : Payload := ⟨b.addressIn b.heap bytes.length, bytes.toArray⟩
  refine ⟨p.address, { b with heap := b.heap.push p }, rfl, ?_, by simp [p]⟩
  exact ⟨fun _ _ h ↦ h, fun _ hq ↦ Array.mem_push_of_mem p hq, rfl, rfl, rfl, rfl⟩

/-- Columns of one length can be added, and the first one gives the length. -/
theorem run_expectRows_eq_ok_iff {rows : Nat} {u : Unit} {b' : Builder} :
    (expectRows rows).run b = (.ok u, b') ↔
      (b.rowCount? = none ∨ b.rowCount? = some rows) ∧ b' = { b with rowCount? := some rows } := by
  rw [expectRows, run_bind (show (get : Encoder Builder).run b = (.ok b, b) from rfl)]
  rcases hcount : b.rowCount? with _ | expected
  · exact ⟨fun h ↦ ⟨.inl rfl, (Prod.mk.inj h).2.symm⟩, fun ⟨_, h⟩ ↦ Prod.ext rfl h.symm⟩
  · by_cases hrows : expected = rows
    · subst hrows
      have hsame : { b with rowCount? := some expected } = b := by rw [← hcount]
      rw [hsame]
      show (if expected = expected then return () else throw _ : Encoder Unit).run b = _ ↔ _
      rw [if_pos rfl]
      exact ⟨fun h ↦ ⟨.inr rfl, (Prod.mk.inj h).2.symm⟩, fun ⟨_, h⟩ ↦ Prod.ext rfl h.symm⟩
    · refine iff_of_false ?_ (by simp [hrows])
      show ¬(if expected = rows then return () else throw _ : Encoder Unit).run b = _
      rw [if_neg hrows]
      rintro ⟨⟩

/-- A vector without children is added if its bytes can be made. -/
theorem run_addLeaf_eq_ok_iff {type : LogicalType} {values : List Literal}
    {data : Encoding (Array UInt8)} {id : Nat} {b' : Builder} :
    (addLeaf type values data).run b = (.ok id, b') ↔ ∃ bytes, data = .ok bytes ∧
      id = b.vectors.size ∧ b' = { b with
        vectors := b.vectors.push { type, data := bytes, validity := bitmapOf values } } := by
  cases data with
  | error failure =>
    refine iff_of_false ?_ (by simp)
    rintro ⟨⟩
  | ok bytes =>
    refine ⟨fun h ↦ ?_, ?_⟩
    · obtain ⟨hid, rfl⟩ := Prod.mk.inj h
      exact ⟨bytes, rfl, (Except.ok.inj hid).symm, rfl⟩
    · rintro ⟨_, ⟨⟩, rfl, rfl⟩
      rfl

theorem ensures_addLeaf {type : LogicalType} {values : List Literal} {data : Encoding (Array UInt8)}
    {bytes : Array UInt8} (h : data = .ok bytes) :
    Ensures (addLeaf type values data) b fun id b' ↦
      b'.vectors[id]? = some { type, data := bytes, validity := bitmapOf values } := by
  refine (ensures_lift h).bind fun bytes' b' _ hbytes ↦ ?_
  obtain ⟨rfl, -⟩ := hbytes
  exact ensures_push _

end Encoder

end Columnar
