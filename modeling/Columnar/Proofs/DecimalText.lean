import Columnar.Proofs.ScalarTexts

/-!
# Texts of decimals

`Decimal.IsText` gives the rules by which numbers with a point are written: a minus in front of
negative numbers only, a whole part without needless zeros, and behind the point as many digits as
the scale says, or no point at all. `Decimal.unscaled` reads such a text as if the point were not
there. The text of a decimal follows the rules and reads as the value of the decimal, whatever its
size and its scale are (`Decimal.isText_text`, `Decimal.unscaled_text`), and so it says everything
about the decimal but the number of digits of its column.
-/

namespace Columnar

namespace Text.Digits

/-- A natural number in decimal digits: there is one at least, and no zero in front of others. -/
structure IsNumeral (digits : List Char) : Prop where
  ne_nil : digits ≠ []
  isDigit : ∀ c ∈ digits, c.isDigit = true
  eq_of_head? : digits.head? = some '0' → digits = ['0']

theorem isNumeral_repr (n : Nat) : IsNumeral n.repr.toList where
  ne_nil := by
    rw [Nat.toList_repr]
    exact Nat.toDigits_ne_nil
  isDigit := fun _ ↦ isDigit_of_mem_repr
  eq_of_head? h := by
    rw [Nat.toList_repr] at h
    rw [eq_zero_of_head?_toDigits n h]
    rfl

end Text.Digits

open Text.Digits

namespace Decimal

/-- The rules for the text of a number with `scale` digits behind the point. -/
def IsText (negative : Bool) (scale : Nat) (text : List Char) : Prop :=
  ∃ whole fraction : List Char, IsNumeral whole ∧
    fraction.length = scale ∧ (∀ c ∈ fraction, c.isDigit = true) ∧
    text = (if negative then ['-'] else []) ++ whole ++ if scale = 0 then [] else '.' :: fraction

/-- The integer that a text spells if its point is left out. -/
def unscaled : List Char → Int
  | '-' :: digits => -Nat.ofDigitChars 10 (digits.filter (· != '.')) 0
  | digits => Nat.ofDigitChars 10 (digits.filter (· != '.')) 0

theorem ne_point_of_isDigit {c : Char} (h : c.isDigit = true) : (c != '.') = true := by
  rw [bne_iff_ne]
  rintro rfl
  exact absurd h (by decide)

/-- There are as many digits behind the point as the rules ask for. -/
theorem IsText.length_dropWhile {negative : Bool} {scale : Nat} {text : List Char}
    (h : IsText negative scale text) : (text.dropWhile (· != '.')).length - 1 = scale := by
  obtain ⟨whole, fraction, hwhole, rfl, -, rfl⟩ := h
  have hfront : ∀ c ∈ (if negative then ['-'] else []) ++ whole, (c != '.') = true := by
    intro c hc
    rcases List.mem_append.1 hc with hc | hc
    · cases negative
      · simp at hc
      · obtain rfl := List.mem_singleton.1 hc
        rfl
    · exact ne_point_of_isDigit (hwhole.isDigit c hc)
  rw [List.dropWhile_append_of_pos hfront]
  split
  next hzero => rw [hzero]; rfl
  next => simp

/-- The rules are for one sign only. -/
theorem IsText.head?_eq_iff {negative : Bool} {scale : Nat} {text : List Char}
    (h : IsText negative scale text) : text.head? = some '-' ↔ negative = true := by
  obtain ⟨whole, fraction, hwhole, -, -, rfl⟩ := h
  obtain ⟨c, rest, rfl⟩ := List.exists_cons_of_ne_nil hwhole.ne_nil
  cases negative with
  | true => simp
  | false =>
    have hc : c.isDigit = true := hwhole.isDigit c List.mem_cons_self
    refine iff_of_false ?_ (by simp)
    rintro ⟨⟩
    exact absurd hc (by decide)

theorem isText_text (d : Decimal) : IsText (d.value < 0) d.scale.toNat d.text.toList := by
  refine ⟨(d.value.natAbs / 10 ^ d.scale.toNat).repr.toList,
    fixed d.scale.toNat (d.value.natAbs % 10 ^ d.scale.toNat), isNumeral_repr _,
    length_fixed _ _, fun _ ↦ isDigit_of_mem_fixed, ?_⟩
  rw [toList_text, magnitudeText, List.append_assoc]
  simp only [decide_eq_true_eq]

/-- Without the point, the digits are those of the magnitude: the whole part counts `10 ^ scale` for
each one, and the fraction has exactly the digits that are left. -/
theorem ofDigitChars_magnitudeText (scale magnitude : Nat) :
    Nat.ofDigitChars 10 ((magnitudeText scale magnitude).filter (· != '.')) 0 = magnitude := by
  have hfilter : (magnitudeText scale magnitude).filter (· != '.') =
      (magnitude / 10 ^ scale).repr.toList ++ fixed scale (magnitude % 10 ^ scale) := by
    have hdigits : ∀ digits : List Char, (∀ c ∈ digits, c.isDigit = true) →
        digits.filter (· != '.') = digits :=
      fun _ h ↦ List.filter_eq_self.2 fun c hc ↦ ne_point_of_isDigit (h c hc)
    rw [magnitudeText, List.filter_append, hdigits _ fun _ ↦ isDigit_of_mem_repr]
    congr 1
    split
    next hzero => rw [hzero]; rfl
    next => rw [List.filter_cons_of_neg (by decide), hdigits _ fun _ ↦ isDigit_of_mem_fixed]
  rw [hfilter, Nat.ofDigitChars_append, Nat.toList_repr, Nat.ofDigitChars_ten_toDigits,
    Nat.ofDigitChars_eq_ofDigitChars_zero, length_fixed, ofDigitChars_fixed, Nat.mod_mod,
    Nat.div_add_mod]

theorem unscaled_text (d : Decimal) : unscaled d.text.toList = d.value := by
  rw [toList_text]
  split
  next hneg =>
    show -(Nat.ofDigitChars 10 ((magnitudeText _ _).filter (· != '.')) 0 : Int) = d.value
    rw [ofDigitChars_magnitudeText]
    omega
  next hnonneg =>
    have hsign : ∀ digits, magnitudeText d.scale.toNat d.value.natAbs ≠ '-' :: digits :=
      fun _ ↦ repr_append_ne_cons (by decide)
    rw [List.nil_append, unscaled]
    · rw [ofDigitChars_magnitudeText]
      omega
    · exact hsign

/-- The text of a decimal is exact. It is written by the rules, with a minus if and only if the value
is negative; without its point it spells the value; and two decimals have the same text if and only if
they have the same value and the same scale. -/
theorem text_exact (d : Decimal) :
    IsText (d.value < 0) d.scale.toNat d.text.toList ∧
      (d.text.toList.head? = some '-' ↔ d.value < 0) ∧
      unscaled d.text.toList = d.value ∧
      ∀ e : Decimal, e.text = d.text ↔ e.value = d.value ∧ e.scale = d.scale := by
  refine ⟨d.isText_text, ?_, d.unscaled_text, fun e ↦ ⟨fun h ↦ ⟨?_, ?_⟩, ?_⟩⟩
  · rw [d.isText_text.head?_eq_iff, decide_eq_true_eq]
  · rw [← unscaled_text e, h, unscaled_text]
  · have hscale := e.isText_text.length_dropWhile
    rw [h, d.isText_text.length_dropWhile] at hscale
    exact UInt8.toNat_inj.1 hscale.symm
  · rintro ⟨hvalue, hscale⟩
    rw [text, text, padded, padded, hvalue, hscale]

/-- The least number of 128 bits, with more digits behind the point than it has. -/
example : (⟨-2 ^ 127, 38, 40⟩ : Decimal).text =
    "-0.0170141183460469231731687303715884105728" := by decide +kernel

end Decimal

end Columnar
