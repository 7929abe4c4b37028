import Columnar.LittleEndian.Lemmas
import Columnar.Proofs.Readable
import Columnar.Value.Json

/-!
# Texts of scalars

No two scalars of a type are written alike: each text says what value it was made of. Digits are
read with `Nat.ofDigitChars`, which finds the number again that `Digits.fixed` and `Digits.padded`
write; the parts of a time or of a decimal end where their digits do. Blobs are read back by what
reads their digits (`unescapeBlob_escapeBlob`).
-/

namespace Columnar

/-! ### Digits -/

namespace Text.Digits

theorem isDigit_of_mem_fixed {width n : Nat} {c : Char} (h : c ∈ fixed width n) :
    c.isDigit = true := by
  induction width generalizing n with
  | zero => simp [fixed] at h
  | succ width ih =>
    rcases List.mem_append.1 h with h | h
    · exact ih h
    · obtain rfl := List.mem_singleton.1 h
      rw [digit, Nat.isDigit_digitChar]
      exact decide_eq_true (by omega)

/-- Exactly `width` digits are the digits of the number up to multiples of `10 ^ width`. -/
theorem ofDigitChars_fixed (width n : Nat) :
    Nat.ofDigitChars 10 (fixed width n) 0 = n % 10 ^ width := by
  induction width generalizing n with
  | zero => simp [fixed, Nat.mod_one]
  | succ width ih =>
    have hdigit : (digit (n % 10)).toNat - '0'.toNat = n % 10 := by
      rw [digit, Nat.mod_eq_of_lt (show n % 10 < 16 by omega),
        Nat.toNat_digitChar_of_lt_ten (Nat.mod_lt n (by decide))]
      exact Nat.add_sub_cancel_left ..
    rw [fixed, Nat.ofDigitChars_append, ih, Nat.ofDigitChars_cons, Nat.ofDigitChars_nil, hdigit,
      Nat.pow_succ', Nat.mod_mul, Nat.add_comm]

theorem isDigit_of_mem_padded {width n : Nat} {c : Char} (h : c ∈ (padded width n).toList) :
    c.isDigit = true := by
  unfold padded at h
  split at h
  · rw [String.toList_ofList] at h
    exact isDigit_of_mem_fixed h
  · exact isDigit_of_mem_repr h

/-- Zeros in front make no difference. -/
theorem ofDigitChars_padded (width n : Nat) :
    Nat.ofDigitChars 10 (padded width n).toList 0 = n := by
  unfold padded
  split
  next h =>
    rw [String.toList_ofList, ofDigitChars_fixed]
    exact Nat.mod_eq_of_lt h
  next =>
    show Nat.ofDigitChars 10 n.repr.toList 0 = n
    rw [Nat.toList_repr, Nat.ofDigitChars_toDigits (by decide) (by decide)]

/-- A padded number ends where its digits do. -/
theorem padded_append_inj {width m n : Nat} {r s : List Char}
    (hr : ∀ c ∈ r.head?, c.isDigit = false) (hs : ∀ c ∈ s.head?, c.isDigit = false)
    (h : (padded width m).toList ++ r = (padded width n).toList ++ s) : m = n ∧ r = s := by
  obtain ⟨hdigits, rfl⟩ := append_inj_of_span (fun _ ↦ isDigit_of_mem_padded)
    (fun _ ↦ isDigit_of_mem_padded) hr hs h
  have := congrArg (Nat.ofDigitChars 10 · 0) hdigits
  simp only [ofDigitChars_padded] at this
  exact ⟨this, rfl⟩

end Text.Digits

open Text (Digits.padded_append_inj)

/-! ### Integers -/

/-- A number with a sign can be read back if its magnitude can, and does not begin with a sign. -/
theorem signed_injective {f : Nat → List Char} (hf : ∀ {m n}, f m = f n → m = n)
    (hne : ∀ n cs, f n ≠ '-' :: cs) {m n : Int}
    (h : (if m < 0 then ['-'] else []) ++ f m.natAbs =
      (if n < 0 then ['-'] else []) ++ f n.natAbs) : m = n := by
  split_ifs at h with hm hn hn
  · have := hf (List.cons.inj h).2
    omega
  · exact absurd h.symm (hne _ _)
  · exact absurd h (hne _ _)
  · have := hf h
    omega

theorem toList_toString_int (n : Int) :
    (toString n).toList = (if n < 0 then ['-'] else []) ++ n.natAbs.repr.toList := by
  cases n with
  | ofNat n => rfl
  | negSucc n =>
    show ("-" ++ n.succ.repr).toList = _
    simp [Int.negSucc_lt_zero]

theorem toString_int_injective {m n : Int} (h : toString m = toString n) : m = n := by
  have htext := congrArg String.toList h
  rw [toList_toString_int, toList_toString_int] at htext
  refine signed_injective (f := fun n ↦ n.repr.toList) (fun h ↦ ?_) (fun n cs ↦ ?_) htext
  · rw [Nat.toList_repr, Nat.toList_repr] at h
    exact toDigits_injective h
  · simpa using repr_append_ne_cons (n := n) (s := []) (r := cs) (c := '-') (by decide)

/-- Integers that are shown alike are equal, on both sides of the largest safe integer. -/
theorem Json.ofInt_injective {m n : Int} (h : Json.ofInt m = Json.ofInt n) : m = n := by
  unfold Json.ofInt at h
  split_ifs at h with hm hn hn
  · exact Json.int.inj h
  · exact toString_int_injective (Json.text.inj h)

/-! ### Decimals -/

namespace Decimal

/-- The digits of a decimal without sign, with a point before the last `scale` ones. -/
def magnitudeText (scale magnitude : Nat) : List Char :=
  (magnitude / 10 ^ scale).repr.toList ++
    if scale = 0 then [] else '.' :: Text.Digits.fixed scale (magnitude % 10 ^ scale)

/-- Digits with zeros in front, so that there are more than `scale`, are those of the quotient and those
of the remainder. The induction is on the scale: the last digit is the same on both sides. -/
theorem leftpad_toDigits (scale n : Nat) :
    (Nat.toDigits 10 n).leftpad (scale + 1) '0' =
      Nat.toDigits 10 (n / 10 ^ scale) ++ Text.Digits.fixed scale (n % 10 ^ scale) := by
  induction scale generalizing n with
  | zero =>
    have hpos := List.length_pos_iff.2 (Nat.toDigits_ne_nil (n := n) (b := 10))
    simp [List.leftpad, Text.Digits.fixed, Nat.sub_eq_zero_of_le hpos]
  | succ scale ih =>
    have hlast : Text.Digits.fixed (scale + 1) (n % 10 ^ (scale + 1)) =
        Text.Digits.fixed scale (n / 10 % 10 ^ scale) ++ [Nat.digitChar (n % 10)] := by
      have hlt : n % 10 % 16 = n % 10 := Nat.mod_eq_of_lt (by omega)
      rw [Text.Digits.fixed, Nat.pow_succ', Nat.mod_mul_right_div_self, Nat.mod_mul_right_mod,
        Text.Digits.digit, hlt]
    have hpad : (Nat.toDigits 10 n).leftpad (scale + 2) '0' =
        (Nat.toDigits 10 (n / 10)).leftpad (scale + 1) '0' ++ [Nat.digitChar (n % 10)] := by
      rcases Nat.lt_or_ge n 10 with hlt | hge
      · -- There is a zero more on the left, and it is the first one on the right.
        rw [Nat.toDigits_of_lt_base hlt, Nat.div_eq_of_lt hlt, Nat.mod_eq_of_lt hlt]
        simp [List.leftpad, List.replicate_succ']
      · rw [Nat.toDigits_of_base_le (by decide) hge]
        simp [List.leftpad]
    rw [hpad, ih, hlast, Nat.div_div_eq_div_mul, ← Nat.pow_succ', List.append_assoc]

/-- The whole part is the quotient of the magnitude, and the fraction is the remainder. -/
theorem toList_text (d : Decimal) :
    d.text.toList =
      (if d.value < 0 then ['-'] else []) ++ magnitudeText d.scale.toNat d.value.natAbs := by
  have hsign : (if d.value < 0 then "-" else "").toList = if d.value < 0 then ['-'] else [] := by
    split <;> rfl
  have hpadded : d.padded = Nat.toDigits 10 (d.value.natAbs / 10 ^ d.scale.toNat) ++
      Text.Digits.fixed d.scale.toNat (d.value.natAbs % 10 ^ d.scale.toNat) := by
    show d.value.natAbs.repr.toList.leftpad _ _ = _
    rw [Nat.toList_repr, leftpad_toDigits]
  rw [text, magnitudeText]
  split
  next hzero => simp [hsign, hzero]
  next =>
    rw [hpadded, List.splitAt_eq, List.length_append, Text.Digits.length_fixed, Nat.add_sub_cancel,
      List.take_left, List.drop_left]
    simp [hsign]

theorem magnitudeText_injective {scale m n : Nat}
    (h : magnitudeText scale m = magnitudeText scale n) : m = n := by
  have hpoint : ∀ k, ∀ c ∈ (if scale = 0 then [] else '.' :: Text.Digits.fixed scale k).head?,
      c.isDigit = false := by
    intro k
    split <;> simp
  obtain ⟨hdiv, hrest⟩ := repr_append_inj (hpoint _) (hpoint _) h
  have hmod : m % 10 ^ scale = n % 10 ^ scale := by
    split at hrest
    next hzero => simp [hzero, Nat.mod_one]
    next =>
      have hdigits := congrArg (Nat.ofDigitChars 10 · 0) (List.cons.inj hrest).2
      simpa only [Text.Digits.ofDigitChars_fixed, Nat.mod_mod] using hdigits
  rw [← Nat.div_add_mod m (10 ^ scale), hdiv, hmod, Nat.div_add_mod]

/-- Decimals of one scale with the same text have the same value. -/
theorem value_eq_of_text_eq {a b : Decimal} (hscale : a.scale = b.scale) (h : a.text = b.text) :
    a.value = b.value := by
  have htext := congrArg String.toList h
  rw [toList_text, toList_text, hscale] at htext
  exact signed_injective magnitudeText_injective (fun _ _ ↦ repr_append_ne_cons (by decide)) htext

end Decimal

/-! ### Times with a zone -/

namespace TimeTz

/-- A part of the text that is left out if it is zero. -/
def optionalText (mark : Char) (width n : Nat) : List Char :=
  if n = 0 then [] else mark :: (Text.Digits.padded width n).toList

/-- An optional part that is there begins with its mark, and ends where its digits do. -/
theorem optionalText_append_inj {mark : Char} {width m n : Nat} {r s : List Char}
    (hr : ∀ c ∈ r.head?, c.isDigit = false ∧ c ≠ mark)
    (hs : ∀ c ∈ s.head?, c.isDigit = false ∧ c ≠ mark)
    (h : optionalText mark width m ++ r = optionalText mark width n ++ s) : m = n ∧ r = s := by
  unfold optionalText at h
  split_ifs at h with hm hn hn
  · exact ⟨hm.trans hn.symm, h⟩
  · obtain rfl : r = mark :: _ := h
    exact absurd rfl (hr mark rfl).2
  · obtain rfl : s = mark :: _ := h.symm
    exact absurd rfl (hs mark rfl).2
  · exact Digits.padded_append_inj (fun c hc ↦ (hr c hc).1) (fun c hc ↦ (hs c hc).1)
      (List.cons.inj h).2

theorem optionalText_injective {mark : Char} {width m n : Nat}
    (h : optionalText mark width m = optionalText mark width n) : m = n :=
  (optionalText_append_inj (r := []) (s := []) (by simp) (by simp) (by rw [h])).1

/-- No digits go on where an optional part comes, whether it is there or not. -/
theorem isDigit_head_optionalText {mark : Char} {width n : Nat} {r : List Char}
    (hmark : mark.isDigit = false) (hr : ∀ c ∈ r.head?, c.isDigit = false) :
    ∀ c ∈ (optionalText mark width n ++ r).head?, c.isDigit = false := by
  unfold optionalText
  split
  · exact hr
  · simpa using hmark

theorem optionalText_ne_cons {mark : Char} {width n : Nat} (hn : n = 0) (cs : List Char) :
    optionalText mark width n ≠ mark :: cs := by
  simp [optionalText, hn]

theorem toList_timeText (micros : Nat) :
    (timeText micros).toList = (Text.Digits.padded 2 (micros / 1000000 / 3600)).toList ++
      ':' :: ((Text.Digits.padded 2 (micros / 1000000 / 60 % 60)).toList ++
        ':' :: ((Text.Digits.padded 2 (micros / 1000000 % 60)).toList ++
          optionalText '.' 6 (micros % 1000000))) := by
  simp only [timeText, optionalText, String.toList_append, List.append_assoc]
  congr 1
  split <;> simp

/-- A time ends where its digits do. -/
theorem timeText_append_inj {m n : Nat} {r s : List Char}
    (hr : ∀ c ∈ r.head?, c.isDigit = false ∧ c ≠ '.')
    (hs : ∀ c ∈ s.head?, c.isDigit = false ∧ c ≠ '.')
    (h : (timeText m).toList ++ r = (timeText n).toList ++ s) : m = n ∧ r = s := by
  simp only [toList_timeText, List.append_assoc, List.cons_append] at h
  obtain ⟨hhours, h⟩ := Digits.padded_append_inj (by simp) (by simp) h
  obtain ⟨hminutes, h⟩ := Digits.padded_append_inj (by simp) (by simp) (List.cons.inj h).2
  obtain ⟨hseconds, h⟩ := Digits.padded_append_inj
    (isDigit_head_optionalText (by decide) fun c hc ↦ (hr c hc).1)
    (isDigit_head_optionalText (by decide) fun c hc ↦ (hs c hc).1) (List.cons.inj h).2
  obtain ⟨hmicros, rfl⟩ := optionalText_append_inj hr hs h
  exact ⟨by omega, rfl⟩

/-- The digits of an offset without its sign. -/
def magnitudeText (seconds : Nat) : List Char :=
  (Text.Digits.padded 2 (seconds / 3600)).toList ++
    ((if seconds % 3600 = 0 then []
      else ':' :: (Text.Digits.padded 2 (seconds / 60 % 60)).toList) ++
      optionalText ':' 2 (seconds % 60))

theorem toList_offsetText (offset : Int) :
    (offsetText offset).toList =
      (if offset < 0 then '-' else '+') :: magnitudeText offset.natAbs := by
  simp only [offsetText, magnitudeText, optionalText, String.toList_append, List.append_assoc]
  split <;> split <;> split <;> simp

theorem magnitudeText_injective {m n : Nat} (h : magnitudeText m = magnitudeText n) : m = n := by
  have hmark : ∀ k, ∀ c ∈ (optionalText ':' 2 k).head?, c.isDigit = false := by
    intro k
    simpa using isDigit_head_optionalText (r := []) (by decide) (by simp)
  have hrest : ∀ k (minutes : List Char), ∀ c ∈ ((if k % 3600 = 0 then [] else ':' :: minutes) ++
      optionalText ':' 2 (k % 60)).head?, c.isDigit = false := by
    intro k minutes
    split
    · exact hmark _
    · simp
  obtain ⟨hhours, h⟩ := Digits.padded_append_inj (hrest _ _) (hrest _ _) h
  -- Whole hours have no seconds, so a mark behind the hours is that of the minutes.
  split_ifs at h with hm hn hn
  · omega
  · exact absurd h (optionalText_ne_cons (by omega) _)
  · exact absurd h.symm (optionalText_ne_cons (by omega) _)
  · obtain ⟨hminutes, h⟩ := Digits.padded_append_inj (hmark _) (hmark _) (List.cons.inj h).2
    have hseconds := optionalText_injective h
    omega

theorem offsetText_injective {m n : Int} (h : offsetText m = offsetText n) : m = n := by
  have htext := congrArg String.toList h
  rw [toList_offsetText, toList_offsetText] at htext
  obtain ⟨hsign, hdigits⟩ := List.cons.inj htext
  have hmagnitude := magnitudeText_injective hdigits
  split_ifs at hsign with hm hn hn
  · omega
  · simp at hsign
  · simp at hsign
  · omega

/-- Times with a zone that have the same text are the same, whatever the number of hours. -/
theorem text_injective {a b : TimeTz} (h : a.text = b.text) : a = b := by
  have htext := congrArg String.toList h
  simp only [text, String.toList_append] at htext
  have hsign : ∀ offset, ∀ c ∈ (offsetText offset).toList.head?, c.isDigit = false ∧ c ≠ '.' := by
    intro offset
    rw [toList_offsetText]
    split <;> simp
  obtain ⟨hmicros, hoffset⟩ := timeText_append_inj (hsign _) (hsign _) htext
  obtain ⟨micros, offset⟩ := a
  obtain ⟨micros', offset'⟩ := b
  obtain rfl := UInt64.toNat_inj.1 hmicros
  obtain rfl := Int32.toInt_inj.1 (offsetText_injective (String.toList_inj.1 hoffset))
  rfl

end TimeTz

/-! ### Bit strings -/

/-- Bit strings with the same text have the same bits, whatever their padding is filled with. -/
theorem BitString.bits_eq_of_text_eq {a b : BitString} (h : a.text = b.text) : a.bits = b.bits := by
  have hdigit : Function.Injective fun b : Bool ↦ if b then '1' else '0' := by
    rintro (_ | _) (_ | _) <;> simp
  exact List.map_injective_iff.2 hdigit (String.ofList_injective h)

/-! ### Blobs -/

/-- Reads the text of a blob from left to right: a backslash begins the two digits of a byte, and
every other character stands for itself. -/
def unescapeBlob : List Char → Option (List UInt8)
  | [] => some []
  | '\\' :: 'x' :: high :: low :: rest => do
    let h ← Text.Hex.value? high
    let l ← Text.Hex.value? low
    return UInt8.ofNat (16 * h + l) :: (← unescapeBlob rest)
  | c :: rest => return UInt8.ofNat c.toNat :: (← unescapeBlob rest)

theorem value?_upperDigit : ∀ d < 16, Text.Hex.value? (upperDigit d) = some d := by decide

theorem unescapeBlob_cons {c : Char} {rest : List Char} (hc : c ≠ '\\') :
    unescapeBlob (c :: rest) = (UInt8.ofNat c.toNat :: ·) <$> unescapeBlob rest := by
  rw [unescapeBlob]
  · cases unescapeBlob rest <;> rfl
  · rintro _ _ _ rfl
    exact absurd rfl hc

theorem isPlainByte_iff {b : UInt8} :
    isPlainByte b = true ↔ (0x20 ≤ b.toNat ∧ b.toNat < 0x7f) ∧ b.toNat ≠ 0x5c := by
  simp [isPlainByte, UInt8.le_iff_toNat_le, UInt8.lt_iff_toNat_lt, ← UInt8.toNat_inj]

/-- A plain byte is the number of its character, and so that is no backslash. -/
theorem plainChar_of_isPlainByte {b : UInt8} (h : isPlainByte b = true) :
    (Char.ofNat b.toNat).toNat = b.toNat ∧ Char.ofNat b.toNat ≠ '\\' := by
  have hlt := b.toNat_lt
  have hnat : (Char.ofNat b.toNat).toNat = b.toNat := by
    rw [Char.ofNat, dif_pos (.inl (by omega))]
    rfl
  exact ⟨hnat, fun heq ↦ (isPlainByte_iff.1 h).2 (by rw [← hnat, heq]; rfl)⟩

theorem unescapeBlob_escapeByte_append (b : UInt8) (rest : List Char) :
    unescapeBlob (escapeByte b ++ rest) = (b :: ·) <$> unescapeBlob rest := by
  have hlt := b.toNat_lt
  unfold escapeByte
  split
  next h =>
    obtain ⟨hnat, hne⟩ := plainChar_of_isPlainByte h
    rw [List.cons_append, List.nil_append, unescapeBlob_cons hne, hnat, UInt8.ofNat_toNat]
  next =>
    have hhigh := value?_upperDigit _ (show b.toNat / 16 < 16 by omega)
    have hlow := value?_upperDigit _ (Nat.mod_lt b.toNat (by decide : 16 > 0))
    have hb : UInt8.ofNat (16 * (b.toNat / 16) + b.toNat % 16) = b := by
      rw [Nat.div_add_mod, UInt8.ofNat_toNat]
    simp only [List.cons_append, List.nil_append, unescapeBlob, hhigh, hlow, Option.bind_eq_bind,
      Option.bind_some, hb]
    cases unescapeBlob rest <;> rfl

theorem unescapeBlob_flatMap (bytes : List UInt8) :
    unescapeBlob (bytes.flatMap escapeByte) = some bytes := by
  induction bytes with
  | nil => rfl
  | cons b bytes ih => rw [List.flatMap_cons, unescapeBlob_escapeByte_append, ih]; rfl

/-- A blob can be read back from its text. -/
theorem unescapeBlob_escapeBlob (bytes : List UInt8) :
    unescapeBlob (escapeBlob bytes).toList = some bytes := by
  rw [escapeBlob, String.toList_ofList, unescapeBlob_flatMap]

theorem escapeBlob_injective {bs cs : List UInt8} (h : escapeBlob bs = escapeBlob cs) :
    bs = cs := by
  have hbytes : some bs = some cs := by
    rw [← unescapeBlob_escapeBlob, h, unescapeBlob_escapeBlob]
  exact Option.some.inj hbytes

end Columnar
