import Mathlib.Data.List.Basic
import Columnar.LogicalType.Label

/-!
# Texts that can be read back

Texts are made of parts that stand one behind the other, and can be read back if each part can be
told from what follows it. For a part that ends where a kind of character does, such as a number or
a plain name, this is `append_inj_of_span`. Quoted parts end at a quote that no other quote follows
(`quoted_append_inj`), and a list of parts with commas between them can be read back if its parts
can (`joined_append_inj`).
-/

namespace Columnar

/-- Runs of characters of one kind, each followed by nothing or by a character of another kind, are
the same if the whole texts are. -/
theorem append_inj_of_span {p : Char → Bool} {xs ys r s : List Char} (hx : ∀ c ∈ xs, p c = true)
    (hy : ∀ c ∈ ys, p c = true) (hr : ∀ c ∈ r.head?, p c = false)
    (hs : ∀ c ∈ s.head?, p c = false) (h : xs ++ r = ys ++ s) : xs = ys ∧ r = s := by
  induction xs generalizing ys with
  | nil =>
    cases ys with
    | nil => exact ⟨rfl, h⟩
    | cons y ys =>
      obtain rfl : r = y :: (ys ++ s) := h
      simp [hr y rfl] at hy
  | cons x xs ih =>
    cases ys with
    | nil =>
      obtain rfl : x :: (xs ++ r) = s := h
      simp [hs x rfl] at hx
    | cons y ys =>
      obtain ⟨rfl, htail⟩ := List.cons.inj h
      obtain ⟨rfl, rfl⟩ := ih (List.forall_mem_cons.1 hx).2 (List.forall_mem_cons.1 hy).2 htail
      exact ⟨rfl, rfl⟩

/-! ### Numbers -/

theorem toDigits_injective {m n : Nat} (h : Nat.toDigits 10 m = Nat.toDigits 10 n) : m = n := by
  have := congrArg (Nat.ofDigitChars 10 · 0) h
  simpa [Nat.ofDigitChars_toDigits] using this

/-- Only the digits of zero start with a zero. The induction is on the digits, from the last one. -/
theorem eq_zero_of_head?_toDigits (n : Nat) (h : (Nat.toDigits 10 n).head? = some '0') : n = 0 := by
  induction n using Nat.strongRecOn with
  | ind n ih =>
    by_cases hlt : n < 10
    · rw [Nat.toDigits_of_lt_base hlt] at h
      exact Nat.digitChar_eq_zero.1 (Option.some.inj h)
    · rw [Nat.toDigits_of_base_le (by decide) (Nat.not_lt.1 hlt),
        List.head?_append_of_ne_nil _ Nat.toDigits_ne_nil] at h
      have := ih (n / 10) (by omega) h
      omega

theorem isDigit_of_mem_repr {n : Nat} {c : Char} (h : c ∈ n.repr.toList) : c.isDigit = true := by
  rw [Nat.toList_repr] at h
  exact Nat.isDigit_of_mem_toDigits (by decide) (by decide) h

/-- A number ends where its digits do. -/
theorem repr_append_inj {m n : Nat} {r s : List Char} (hr : ∀ c ∈ r.head?, c.isDigit = false)
    (hs : ∀ c ∈ s.head?, c.isDigit = false) (h : m.repr.toList ++ r = n.repr.toList ++ s) :
    m = n ∧ r = s := by
  obtain ⟨hdigits, rfl⟩ := append_inj_of_span (fun _ ↦ isDigit_of_mem_repr)
    (fun _ ↦ isDigit_of_mem_repr) hr hs h
  rw [Nat.toList_repr, Nat.toList_repr] at hdigits
  exact ⟨toDigits_injective hdigits, rfl⟩

theorem repr_append_ne_cons {n : Nat} {c : Char} {r s : List Char} (hc : c.isDigit = false) :
    n.repr.toList ++ s ≠ c :: r := by
  obtain ⟨d, rest, hdigits⟩ := List.exists_cons_of_ne_nil (l := n.repr.toList)
    (by simp [Nat.toList_repr])
  rw [hdigits]
  rintro ⟨⟩
  have hd := isDigit_of_mem_repr (n := n) (hdigits ▸ List.mem_cons_self)
  exact absurd hd (by simp [hc])

/-! ### Quotes -/

section Quoted

variable {q : Char}

/-- The characters between quotes, of which the quotes are doubled, end at a single quote. -/
theorem doubled_append_inj {as bs r s : List Char} (hr : r.head? ≠ some q) (hs : s.head? ≠ some q)
    (h : as.flatMap (fun c ↦ if c = q then [q, q] else [c]) ++ q :: r =
      bs.flatMap (fun c ↦ if c = q then [q, q] else [c]) ++ q :: s) : as = bs ∧ r = s := by
  induction as generalizing bs with
  | nil =>
    cases bs with
    | nil => exact ⟨rfl, (List.cons.inj h).2⟩
    | cons b bs =>
      by_cases hb : b = q
      · simp only [hb, List.flatMap_cons, if_true, List.flatMap_nil, List.nil_append,
          List.cons_append, List.cons.injEq, true_and] at h
        simp [h] at hr
      · simp [hb, Ne.symm hb] at h
  | cons a as ih =>
    cases bs with
    | nil =>
      by_cases ha : a = q
      · simp only [ha, List.flatMap_cons, if_true, List.flatMap_nil, List.nil_append,
          List.cons_append, List.cons.injEq, true_and] at h
        simp [← h] at hs
      · simp [ha] at h
    | cons b bs =>
      -- A doubled quote is no other character.
      by_cases ha : a = q <;> by_cases hb : b = q
      · simp only [ha, hb, List.flatMap_cons, if_true, List.cons_append, List.nil_append,
          List.cons.injEq, true_and] at h ⊢
        exact ih h
      · simp [ha, hb, Ne.symm hb] at h
      · simp [ha, hb] at h
      · simp only [ha, hb, List.flatMap_cons, if_false, List.cons_append, List.nil_append,
          List.cons.injEq] at h ⊢
        obtain ⟨rfl, h⟩ := h
        obtain ⟨rfl, rfl⟩ := ih h
        exact ⟨⟨rfl, rfl⟩, rfl⟩

/-- A quoted text ends at a quote that no quote follows. -/
theorem quoted_append_inj {a b : String} {r s : List Char} (hr : r.head? ≠ some q)
    (hs : s.head? ≠ some q)
    (h : (LogicalType.quoted q a).toList ++ r = (LogicalType.quoted q b).toList ++ s) :
    a = b ∧ r = s := by
  simp only [LogicalType.quoted, String.toList_ofList, List.cons_append, List.append_assoc,
    List.nil_append, List.cons.injEq, true_and] at h
  obtain ⟨hchars, rfl⟩ := doubled_append_inj hr hs h
  exact ⟨String.toList_inj.1 hchars, rfl⟩

end Quoted

/-! ### Lists of parts -/

/-- The parts with a comma and a blank between them. -/
def joined (parts : List (List Char)) : List Char := [',', ' '].intercalate parts

theorem toList_intercalate (texts : List String) :
    (", ".intercalate texts).toList = joined (texts.map String.toList) :=
  String.toList_intercalate

/-- What may follow a part of a list: a comma, a closing bracket, or nothing. -/
def EndsPart (r : List Char) : Prop := ∀ c ∈ r.head?, c = ',' ∨ c = ')'

section Joined

variable {α : Type} {text : α → List Char}

theorem joined_cons (a : α) (as : List α) :
    joined ((a :: as).map text) = text a ++ as.flatMap fun b ↦ ',' :: ' ' :: text b := by
  induction as generalizing a with
  | nil => simp [joined]
  | cons b as ih =>
    rw [joined, List.map_cons, List.map_cons, List.intercalate_cons_cons, ← List.map_cons, ← joined,
      ih, List.flatMap_cons]
    simp

/-- Between the parts of a list and behind them there is what ends a part. -/
theorem endsPart_rest (as : List α) (r : List Char) :
    EndsPart ((as.flatMap fun b ↦ ',' :: ' ' :: text b) ++ ')' :: r) := by
  cases as <;> simp [EndsPart]

/-- The parts behind the first one are the same if they can be read back. -/
theorem rest_append_inj {as bs : List α} {r s : List Char}
    (hpart : ∀ a ∈ as, ∀ b ∈ bs, ∀ r s, EndsPart r → EndsPart s → text a ++ r = text b ++ s →
      a = b ∧ r = s)
    (h : (as.flatMap fun b ↦ ',' :: ' ' :: text b) ++ ')' :: r =
      (bs.flatMap fun b ↦ ',' :: ' ' :: text b) ++ ')' :: s) : as = bs ∧ r = s := by
  induction as generalizing bs with
  | nil =>
    cases bs with
    | nil => simpa using h
    | cons b bs => simp at h
  | cons a as ih =>
    cases bs with
    | nil => simp at h
    | cons b bs =>
      simp only [List.flatMap_cons, List.cons_append, List.append_assoc, List.cons.injEq,
        true_and] at h
      obtain ⟨rfl, hrest⟩ :=
        hpart a (by simp) b (by simp) _ _ (endsPart_rest as r) (endsPart_rest bs s) h
      obtain ⟨rfl, rfl⟩ :=
        ih (fun a ha b hb ↦ hpart a (List.mem_cons_of_mem _ ha) b (List.mem_cons_of_mem _ hb)) hrest
      exact ⟨rfl, rfl⟩

/-- Lists up to a closing bracket are the same if their parts can be read back. No part may look
like the end of an empty list. -/
theorem joined_append_inj {as bs : List α} {r s : List Char}
    (hpart : ∀ a ∈ as, ∀ b ∈ bs, ∀ r s, EndsPart r → EndsPart s → text a ++ r = text b ++ s →
      a = b ∧ r = s)
    (hne : ∀ a r, (text a ++ r).head? ≠ some ')')
    (h : joined (as.map text) ++ ')' :: r = joined (bs.map text) ++ ')' :: s) :
    as = bs ∧ r = s := by
  cases as with
  | nil =>
    cases bs with
    | nil => simpa [joined] using h
    | cons b bs =>
      rw [joined_cons, List.append_assoc] at h
      exact absurd (congrArg List.head? h).symm (hne _ _)
  | cons a as =>
    cases bs with
    | nil =>
      rw [joined_cons, List.append_assoc] at h
      exact absurd (congrArg List.head? h) (hne _ _)
    | cons b bs =>
      rw [joined_cons, joined_cons, List.append_assoc, List.append_assoc] at h
      obtain ⟨rfl, hrest⟩ :=
        hpart a (by simp) b (by simp) _ _ (endsPart_rest as r) (endsPart_rest bs s) h
      obtain ⟨rfl, rfl⟩ := rest_append_inj
        (fun a ha b hb ↦ hpart a (List.mem_cons_of_mem _ ha) b (List.mem_cons_of_mem _ hb)) hrest
      exact ⟨rfl, rfl⟩

end Joined

end Columnar
