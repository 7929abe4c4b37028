import Mathlib.Data.List.Forall2
import Mathlib.Data.List.OfFn
import Columnar.Failure

/-!
# Laws of outcomes

How computations that may fail are taken apart. `bind_eq_ok_iff` and `mapM_eq_ok_iff` say when a
sequence of steps has a value, and `bind_eq_error_iff` and `mapM_eq_error_iff` where it fails.
`Outcome.FailsOnly` bounds the ways in which a computation can fail, and is kept by sequences of
steps that keep it; `Outcome.Unbroken`, ending with a value or an error to report and never breaking
off, is a case of it.

`Outcome.collect` is a map over the numbers below a bound, so its laws are those of `mapM`
(`collect_eq_ok_iff`, `collect_eq_error_iff`, `Unbroken.collect`).
-/

namespace Columnar

section Except

variable {ε α β : Type}

theorem bind_eq_ok_iff {x : Except ε α} {f : α → Except ε β} {b : β} :
    x >>= f = .ok b ↔ ∃ a, x = .ok a ∧ f a = .ok b := by
  cases x <;> simp [bind, Except.bind]

theorem map_eq_ok_iff {x : Except ε α} {f : α → β} {b : β} :
    f <$> x = .ok b ↔ ∃ a, x = .ok a ∧ f a = b := by
  cases x <;> simp [Functor.map, Except.map]

theorem bind_eq_error_iff {x : Except ε α} {f : α → Except ε β} {e : ε} :
    x >>= f = .error e ↔ x = .error e ∨ ∃ a, x = .ok a ∧ f a = .error e := by
  cases x <;> simp [bind, Except.bind]

theorem map_eq_error_iff {x : Except ε α} {f : α → β} {e : ε} :
    f <$> x = .error e ↔ x = .error e := by
  cases x <;> simp [Functor.map, Except.map]

@[simp] theorem pure_eq_ok (a : α) : (pure a : Except ε α) = .ok a := rfl

@[simp] theorem ok_bind (a : α) (f : α → Except ε β) : (.ok a >>= f) = f a := rfl

/-- A map has a value when all its steps have one, and then it is the list of them. -/
theorem mapM_eq_ok_iff {f : α → Except ε β} {as : List α} {bs : List β} :
    as.mapM f = .ok bs ↔ List.Forall₂ (fun a b ↦ f a = .ok b) as bs := by
  induction as generalizing bs with
  | nil => cases bs <;> simp
  | cons a as ih =>
    rw [List.mapM_cons]
    simp only [bind_eq_ok_iff, ih, pure_eq_ok, Except.ok.injEq, List.forall₂_cons_left_iff]
    constructor
    · rintro ⟨b, hb, bs', hbs', rfl⟩
      exact ⟨b, bs', hb, hbs', rfl⟩
    · rintro ⟨b, bs', hb, hbs', rfl⟩
      exact ⟨b, hb, bs', hbs', rfl⟩

/-- A map fails as the first of its steps that does. -/
theorem mapM_eq_error_iff {f : α → Except ε β} {as : List α} {e : ε} :
    as.mapM f = .error e ↔ ∃ before a after, as = before ++ a :: after ∧ f a = .error e ∧
      ∀ b ∈ before, ∃ c, f b = .ok c := by
  induction as with
  | nil => simp
  | cons a as ih =>
    rw [List.mapM_cons]
    simp only [bind_eq_error_iff, ih, pure_eq_ok, reduceCtorEq, and_false, exists_false, or_false]
    constructor
    · rintro (ha | ⟨b, hb, before, a', after, rfl, ha', hbefore⟩)
      · exact ⟨[], a, as, rfl, ha, by simp⟩
      · exact ⟨a :: before, a', after, rfl, ha', List.forall_mem_cons.2 ⟨⟨b, hb⟩, hbefore⟩⟩
    · rintro ⟨before, a', after, has, ha', hbefore⟩
      rcases List.cons_eq_append_iff.1 has with ⟨rfl, h⟩ | ⟨before, rfl, rfl⟩
      · obtain ⟨rfl, -⟩ := List.cons.inj h
        exact .inl ha'
      · obtain ⟨⟨b, hb⟩, hbefore⟩ := List.forall_mem_cons.1 hbefore
        exact .inr ⟨b, hb, before, a', after, rfl, ha', hbefore⟩

/-- Steps that all succeed make a map of their values. -/
theorem mapM_eq_ok_map {f : α → Except ε β} {g : α → β} {as : List α}
    (h : ∀ a ∈ as, f a = .ok (g a)) : as.mapM f = .ok (as.map g) := by
  rw [mapM_eq_ok_iff, List.forall₂_map_right_iff, List.forall₂_same]
  exact h

/-- A loop gets to its end when all its steps do. -/
theorem forM_eq_ok_iff {f : α → Except ε Unit} {as : List α} :
    as.forM f = .ok () ↔ ∀ a ∈ as, f a = .ok () := by
  induction as with
  | nil => simp
  | cons a as ih =>
    rw [List.forM_eq_forM] at ih ⊢
    rw [List.forM_cons, bind_eq_ok_iff, List.forall_mem_cons, ← ih]
    exact ⟨fun ⟨⟨⟩, ha, has⟩ ↦ ⟨ha, has⟩, fun ⟨ha, has⟩ ↦ ⟨(), ha, has⟩⟩

/-- What stands on the right side of related lists is related to something on the left. -/
theorem exists_mem_of_forall₂ {R : α → β → Prop} {as : List α} {bs : List β}
    (h : List.Forall₂ R as bs) {b : β} (hb : b ∈ bs) : ∃ a ∈ as, R a b := by
  induction h with
  | nil => simp at hb
  | @cons a b' as bs hab _ ih =>
    rcases List.mem_cons.1 hb with rfl | hb
    · exact ⟨a, by simp, hab⟩
    · obtain ⟨a', ha', hR⟩ := ih hb
      exact ⟨a', by simp [ha'], hR⟩

/-- If everything in a list is related to something, there is a list of such things. -/
theorem exists_forall₂ {R : α → β → Prop} {as : List α} (h : ∀ a ∈ as, ∃ b, R a b) :
    ∃ bs, List.Forall₂ R as bs := by
  induction as with
  | nil => exact ⟨[], .nil⟩
  | cons a as ih =>
    obtain ⟨b, hb⟩ := h a (by simp)
    obtain ⟨bs, hbs⟩ := ih fun a' ha' ↦ h a' (by simp [ha'])
    exact ⟨b :: bs, .cons hb hbs⟩

theorem exists_forall₂_iff {R : α → β → Prop} {as : List α} :
    (∃ bs, List.Forall₂ R as bs) ↔ ∀ a ∈ as, ∃ b, R a b := by
  refine ⟨fun ⟨bs, hbs⟩ a ha ↦ ?_, exists_forall₂⟩
  obtain ⟨b, -, hb⟩ := exists_mem_of_forall₂ hbs.flip ha
  exact ⟨b, hb⟩

/-- Two steps have a value if the first one has, and the second one behind it. -/
theorem exists_bind_eq_ok_iff {x : Except ε α} {f : α → Except ε β} :
    (∃ b, x >>= f = .ok b) ↔ ∃ a, x = .ok a ∧ ∃ b, f a = .ok b := by
  simp only [bind_eq_ok_iff]
  exact ⟨fun ⟨b, a, hx, hf⟩ ↦ ⟨a, hx, b, hf⟩, fun ⟨a, hx, b, hf⟩ ↦ ⟨b, a, hx, hf⟩⟩

theorem exists_map_eq_ok_iff {x : Except ε α} {f : α → β} :
    (∃ b, f <$> x = .ok b) ↔ ∃ a, x = .ok a := by
  simp only [map_eq_ok_iff]
  exact ⟨fun ⟨_, a, hx, _⟩ ↦ ⟨a, hx⟩, fun ⟨a, hx⟩ ↦ ⟨f a, a, hx, rfl⟩⟩

theorem exists_mapM_eq_ok_iff {f : α → Except ε β} {as : List α} :
    (∃ bs, as.mapM f = .ok bs) ↔ ∀ a ∈ as, ∃ b, f a = .ok b := by
  simp only [mapM_eq_ok_iff, exists_forall₂_iff]

/-- What stands at a position on the right side belongs to what stands there on the left. -/
theorem exists_getElem?_of_forall₂ {R : α × Nat → β → Prop} {as : List α} {bs : List β}
    {start i : Nat} (h : List.Forall₂ R (as.zipIdx start) bs) {a : α} (ha : as[i]? = some a) :
    ∃ b, bs[i]? = some b ∧ R (a, start + i) b := by
  obtain ⟨hi, rfl⟩ := List.getElem?_eq_some_iff.1 ha
  obtain ⟨hlen, hget⟩ := List.forall₂_iff_get.1 h
  have hi' : i < (as.zipIdx start).length := by simpa using hi
  have := hget i hi' (hlen ▸ hi')
  exact ⟨_, List.getElem?_eq_getElem (hlen ▸ hi'), by simpa using this⟩

/-- A relation that is another one together with a property of the right side, between two lists. -/
theorem forall₂_iff_and {R S : α → β → Prop} {p : β → Prop} {as : List α} {bs : List β}
    (h : ∀ a ∈ as, ∀ b, R a b ↔ S a b ∧ p b) :
    List.Forall₂ R as bs ↔ List.Forall₂ S as bs ∧ ∀ b ∈ bs, p b := by
  induction as generalizing bs with
  | nil => cases bs <;> simp
  | cons a as ih =>
    obtain ⟨ha, has⟩ := List.forall_mem_cons.1 h
    cases bs with
    | nil => simp
    | cons b bs =>
      rw [List.forall₂_cons, List.forall₂_cons, List.forall_mem_cons, ha, ih has]
      exact and_and_and_comm

end Except

namespace Outcome

variable {α β : Type}

@[simp] theorem require_eq_ok {condition : Bool} {cause : DecodeError} {u : Unit} :
    require condition cause = .ok u ↔ condition = true :=
  require_eq_ok_iff

@[simp] theorem assert_eq_ok {condition : Bool} {u : Unit} :
    assert condition = .ok u ↔ condition = true :=
  assert_eq_ok_iff

/-! ### Ways to fail -/

/-- The computation fails, if it does, in one of the ways that `P` allows. -/
def FailsOnly (P : Failure → Prop) (x : Outcome α) : Prop :=
  ∀ failure, x = .error failure → P failure

section FailsOnly

variable {P : Failure → Prop} {x : Outcome α}

@[simp] theorem failsOnly_ok (a : α) : FailsOnly P (.ok a) := by simp [FailsOnly]

@[simp] theorem failsOnly_refuse_iff {cause : DecodeError} :
    FailsOnly P (refuse cause : Outcome α) ↔ P (.error cause) := by
  simp [FailsOnly, refuse]

theorem failsOnly_require {condition : Bool} {cause : DecodeError} (h : P (.error cause)) :
    FailsOnly P (require condition cause) := by
  cases condition
  · exact failsOnly_refuse_iff.2 h
  · exact failsOnly_ok ()

/-- Two steps fail as the first one does, or as the second one does after it. -/
theorem failsOnly_bind_iff {f : α → Outcome β} :
    FailsOnly P (x >>= f) ↔ FailsOnly P x ∧ ∀ a, x = .ok a → FailsOnly P (f a) := by
  constructor
  · intro h
    exact ⟨fun failure hx ↦ h failure (bind_eq_error_iff.2 (.inl hx)),
      fun a ha failure hf ↦ h failure (bind_eq_error_iff.2 (.inr ⟨a, ha, hf⟩))⟩
  · rintro ⟨hx, hf⟩ failure h
    rcases bind_eq_error_iff.1 h with h | ⟨a, ha, h⟩
    · exact hx failure h
    · exact hf a ha failure h

theorem FailsOnly.bind {f : α → Outcome β} (hx : FailsOnly P x)
    (hf : ∀ a, x = .ok a → FailsOnly P (f a)) : FailsOnly P (x >>= f) :=
  failsOnly_bind_iff.2 ⟨hx, hf⟩

theorem FailsOnly.map (hx : FailsOnly P x) (f : α → β) : FailsOnly P (f <$> x) :=
  fun failure h ↦ hx failure (map_eq_error_iff.1 h)

theorem FailsOnly.mapM {f : α → Outcome β} {as : List α} (h : ∀ a ∈ as, FailsOnly P (f a)) :
    FailsOnly P (as.mapM f) := by
  intro failure hfailure
  obtain ⟨before, a, after, rfl, ha, -⟩ := mapM_eq_error_iff.1 hfailure
  exact h a (by simp) failure ha

theorem FailsOnly.forM {f : α → Outcome Unit} {as : List α} (h : ∀ a ∈ as, FailsOnly P (f a)) :
    FailsOnly P (as.forM f) := by
  induction as with
  | nil => exact failsOnly_ok _
  | cons a as ih =>
    rw [List.forM_eq_forM] at ih ⊢
    exact (h a (by simp)).bind fun _ _ ↦ ih fun a ha ↦ h a (by simp [ha])

end FailsOnly

/-! ### Computations that do not break off -/

/-- The computation does not break off: it has a value, or an error to report. -/
def Unbroken (x : Outcome α) : Prop := ∀ detail, x ≠ .error (.breach detail)

theorem unbroken_iff_failsOnly {x : Outcome α} :
    Unbroken x ↔ FailsOnly (fun failure ↦ ∀ detail, failure ≠ .breach detail) x :=
  ⟨fun h _ hx detail hbreach ↦ h detail (hbreach ▸ hx), fun h detail hx ↦ h _ hx detail rfl⟩

@[simp] theorem unbroken_ok (a : α) : Unbroken (.ok a) := by simp [Unbroken]

@[simp] theorem unbroken_refuse (cause : DecodeError) : Unbroken (refuse cause : Outcome α) := by
  simp [Unbroken, refuse]

@[simp] theorem unbroken_require (condition : Bool) (cause : DecodeError) :
    Unbroken (require condition cause) := by
  cases condition <;> simp

theorem unbroken_assert {condition : Bool} (h : condition = true) : Unbroken (assert condition) := by
  rw [assert_eq_ok_iff.2 h]
  exact unbroken_ok ()

theorem Unbroken.bind {x : Outcome α} {f : α → Outcome β} (hx : Unbroken x)
    (hf : ∀ a, x = .ok a → Unbroken (f a)) : Unbroken (x >>= f) := by
  simp only [unbroken_iff_failsOnly] at hx hf ⊢
  exact FailsOnly.bind hx hf

theorem Unbroken.map {x : Outcome α} (hx : Unbroken x) (f : α → β) : Unbroken (f <$> x) := by
  rw [unbroken_iff_failsOnly] at hx ⊢
  exact hx.map f

theorem Unbroken.mapM {f : α → Outcome β} {as : List α} (h : ∀ a ∈ as, Unbroken (f a)) :
    Unbroken (as.mapM f) := by
  simp only [unbroken_iff_failsOnly] at h ⊢
  exact FailsOnly.mapM h

theorem Unbroken.forM {f : α → Outcome Unit} {as : List α} (h : ∀ a ∈ as, Unbroken (f a)) :
    Unbroken (as.forM f) := by
  simp only [unbroken_iff_failsOnly] at h ⊢
  exact FailsOnly.forM h

/-! ### Collecting -/

/-- Collecting is a map over the list of all numbers below the bound. -/
theorem collect_eq_mapM_finRange (n : Nat) (f : Fin n → Outcome α) :
    collect n f = (List.finRange n).mapM f := by
  -- `collect_eq_mapM` wants a function on all numbers; past the bound any value will do.
  let g : Nat → Outcome α := fun i ↦ if h : i < n then f ⟨i, h⟩ else broken
  have hg : ∀ i : Fin n, g i = f i := fun i ↦ dif_pos i.isLt
  have hrange : List.range n = (List.finRange n).map (·.val) := by simp
  calc collect n f = collect n fun i ↦ g i := by simp only [hg]
    _ = (List.range n).mapM g := collect_eq_mapM n g
    _ = (List.finRange n).mapM fun i : Fin n ↦ g i := by rw [hrange, List.mapM_map]; rfl
    _ = (List.finRange n).mapM f := by simp only [hg]

theorem collect_eq_ok_iff {n : Nat} {f : Fin n → Outcome α} {as : List α} :
    collect n f = .ok as ↔ ∃ h : as.length = n, ∀ i : Fin n, f i = .ok (as.get (i.cast h.symm)) := by
  rw [collect_eq_mapM_finRange, mapM_eq_ok_iff, List.forall₂_iff_get]
  constructor
  · rintro ⟨hlen, h⟩
    have hn : as.length = n := by simpa using hlen.symm
    refine ⟨hn, fun i ↦ ?_⟩
    simpa using h i (by simp) (hn ▸ i.isLt)
  · rintro ⟨hlen, h⟩
    refine ⟨by simpa using hlen.symm, fun i h₁ h₂ ↦ ?_⟩
    simpa using h ⟨i, by simpa using h₁⟩

/-- Collecting what a function on all numbers is below a bound. -/
theorem collect_eq_ok_iff_getElem? {n : Nat} {f : Nat → Outcome α} {as : List α} :
    collect n (fun i ↦ f i) = .ok as ↔ as.length = n ∧ ∀ i a, as[i]? = some a → f i = .ok a := by
  rw [collect_eq_ok_iff]
  constructor
  · rintro ⟨rfl, h⟩
    refine ⟨rfl, fun i a ha ↦ ?_⟩
    obtain ⟨hi, rfl⟩ := List.getElem?_eq_some_iff.1 ha
    exact h ⟨i, hi⟩
  · rintro ⟨rfl, h⟩
    exact ⟨rfl, fun i ↦ h i _ (List.getElem?_eq_getElem i.isLt)⟩

theorem exists_collect_iff {n : Nat} {f : Nat → Outcome α} :
    (∃ as, collect n (fun i ↦ f i) = .ok as) ↔ ∀ i < n, ∃ a, f i = .ok a := by
  simp only [collect_eq_mapM, exists_mapM_eq_ok_iff, List.mem_range]

/-- The numbers that stand before `k` in the list of all numbers are those below it. -/
theorem mem_before_iff_lt {n : Nat} {before after : List (Fin n)} {j k : Fin n}
    (h : List.finRange n = before ++ k :: after) : j ∈ before ↔ j < k := by
  have hsorted := List.pairwise_lt_finRange n
  rw [h, List.pairwise_append, List.pairwise_cons] at hsorted
  obtain ⟨-, ⟨hafter, -⟩, hbefore⟩ := hsorted
  constructor
  · exact fun hj ↦ hbefore j hj k (by simp)
  · intro hj
    have hmem : j ∈ before ++ k :: after := h ▸ List.mem_finRange j
    rcases List.mem_append.1 hmem with hmem | hmem
    · exact hmem
    · rcases List.mem_cons.1 hmem with rfl | hmem
      · exact absurd hj (Nat.lt_irrefl _)
      · exact absurd hj (Nat.lt_asymm (hafter j hmem))

/-- Collecting fails as the first of the computations that does. -/
theorem collect_eq_error_iff {n : Nat} {f : Fin n → Outcome α} {failure : Failure} :
    collect n f = .error failure ↔
      ∃ k, f k = .error failure ∧ ∀ j < k, ∃ a, f j = .ok a := by
  rw [collect_eq_mapM_finRange, mapM_eq_error_iff]
  constructor
  · rintro ⟨before, k, after, hsplit, hk, hbefore⟩
    exact ⟨k, hk, fun j hj ↦ hbefore j ((mem_before_iff_lt hsplit).2 hj)⟩
  · rintro ⟨k, hk, hbefore⟩
    obtain ⟨before, after, hsplit⟩ := List.append_of_mem (List.mem_finRange k)
    exact ⟨before, k, after, hsplit, hk, fun j hj ↦ hbefore j ((mem_before_iff_lt hsplit).1 hj)⟩

/-- Collecting has the list of the values of all computations, if they all have one. -/
theorem collect_eq_ok_ofFn_iff {n : Nat} {f : Fin n → Outcome α} {as : List α} :
    collect n f = .ok as ↔ ∃ g : Fin n → α, as = List.ofFn g ∧ ∀ i, f i = .ok (g i) := by
  rw [collect_eq_ok_iff]
  constructor
  · rintro ⟨rfl, h⟩
    exact ⟨as.get, (List.ofFn_get as).symm, h⟩
  · rintro ⟨g, rfl, h⟩
    exact ⟨List.length_ofFn, fun i ↦ by simp [h]⟩

theorem FailsOnly.collect {P : Failure → Prop} {n : Nat} {f : Fin n → Outcome α}
    (h : ∀ i, FailsOnly P (f i)) : FailsOnly P (Outcome.collect n f) := by
  rw [collect_eq_mapM_finRange]
  exact FailsOnly.mapM fun i _ ↦ h i

theorem Unbroken.collect {n : Nat} {f : Fin n → Outcome α} (h : ∀ i, Unbroken (f i)) :
    Unbroken (Outcome.collect n f) := by
  rw [collect_eq_mapM_finRange]
  exact Unbroken.mapM fun i _ ↦ h i

end Outcome

end Columnar
