import Columnar.Proofs.ScalarTexts

/-!
# Texts of times with a zone

`TimeTz.Parts` is the form that the text of a time with a zone has: a clock of hours, minutes and
seconds, a fraction of six digits, a sign, and a second clock for the offset, which may end with its
hours or its minutes. All parts are digits, and only their number and their range is given, so the
form does not say how a text is made. `TimeTz.read` goes through a text from left to right and puts
the numbers together that it finds; it reads every text of the form, whatever its parts are
(`TimeTz.read_text`).

The text of a value has the form, with all parts that are needed and no others, and is read as the
value (`TimeTz.text_readBack`). There is no bound on the hours of a time, and none on those of an
offset but that of its 32 bits.
-/

namespace Columnar

namespace Text.Digits

theorem le_length_padded (width n : Nat) : width ≤ (padded width n).toList.length := by
  unfold padded
  split
  next => simp
  next h =>
    by_contra hlt
    have hle := (Nat.length_repr_le_iff (n := n) (k := width) (by omega)).1 (by
      rw [← String.length_toList]
      exact Nat.le_of_not_le hlt)
    exact h hle

theorem length_padded_of_lt {width n : Nat} (h : n < 10 ^ width) :
    (padded width n).toList.length = width := by
  rw [padded, if_pos (show n < Nat.pow 10 width from h), String.toList_ofList, length_fixed]

end Text.Digits

open Text.Digits

namespace TimeTz

/-- The number that digits spell. -/
abbrev number (digits : List Char) : Nat := Nat.ofDigitChars 10 digits 0

/-! ### The form of a text -/

/-- Two digits at least. -/
structure IsHours (digits : List Char) : Prop where
  two_le_length : 2 ≤ digits.length
  isDigit : ∀ c ∈ digits, c.isDigit = true

/-- Two digits, of a number below sixty. -/
structure IsSixtieth (digits : List Char) : Prop where
  length_eq : digits.length = 2
  isDigit : ∀ c ∈ digits, c.isDigit = true
  lt_sixty : number digits < 60

/-- Six digits. -/
structure IsFraction (digits : List Char) : Prop where
  length_eq : digits.length = 6
  isDigit : ∀ c ∈ digits, c.isDigit = true

/-- A part behind its mark, or nothing. -/
def marked (mark : Char) : Option (List Char) → List Char
  | none => []
  | some digits => mark :: digits

/-- The number of a part, which is zero if it is left out. -/
def numberOf (part : Option (List Char)) : Nat := (part.map number).getD 0

/-- Hours, with minutes and seconds unless they are left out. There are no seconds without minutes. -/
structure Clock where
  hours : List Char
  minutes : Option (List Char)
  seconds : Option (List Char)
  isHours : IsHours hours
  isSixtieth_minutes : ∀ digits ∈ minutes, IsSixtieth digits
  isSixtieth_seconds : ∀ digits ∈ seconds, IsSixtieth digits
  minutes_of_seconds : seconds.isSome → minutes.isSome

namespace Clock

/-- The clock as it is written. -/
def text (c : Clock) : List Char := c.hours ++ (marked ':' c.minutes ++ marked ':' c.seconds)

/-- The number of seconds. -/
def total (c : Clock) : Nat := number c.hours * 3600 + numberOf c.minutes * 60 + numberOf c.seconds

end Clock

/-- The parts of a text: the time, its fraction of a second, and the offset with its sign. -/
structure Parts where
  time : Clock
  fraction : Option (List Char)
  negative : Bool
  offset : Clock
  isFraction : ∀ digits ∈ fraction, IsFraction digits

namespace Parts

/-- The parts one after the other. -/
def text (p : Parts) : List Char :=
  p.time.text ++ (marked '.' p.fraction ++ ((if p.negative then '-' else '+') :: p.offset.text))

/-- The number of microseconds. -/
def micros (p : Parts) : Nat := p.time.total * 1000000 + numberOf p.fraction

/-- The number of seconds of the offset. -/
def offsetSeconds (p : Parts) : Int := if p.negative then -p.offset.total else p.offset.total

end Parts

/-! ### Reading -/

/-- The number that a text begins with, and what is behind it. -/
def takeNumber (cs : List Char) : Nat × List Char :=
  (number (cs.takeWhile Char.isDigit), cs.dropWhile Char.isDigit)

/-- The number behind a mark, and what is behind it. Without the mark the number is zero. -/
def takeMarked (mark : Char) : List Char → Nat × List Char
  | [] => (0, [])
  | c :: cs => if c = mark then takeNumber cs else (0, c :: cs)

/-- The seconds of the clock that a text begins with, and what is behind it. -/
def takeClock (cs : List Char) : Nat × List Char :=
  let (hours, cs) := takeNumber cs
  let (minutes, cs) := takeMarked ':' cs
  let (seconds, cs) := takeMarked ':' cs
  (hours * 3600 + minutes * 60 + seconds, cs)

/-- The microseconds and the offset that a text says, if it has a sign and ends with its offset. -/
def read (text : List Char) : Option (Nat × Int) :=
  let (seconds, cs) := takeClock text
  let (fraction, cs) := takeMarked '.' cs
  match cs with
  | [] => none
  | sign :: cs =>
    match takeClock cs with
    | (_, _ :: _) => none
    | (offset, []) =>
      if sign = '+' then some (seconds * 1000000 + fraction, offset)
      else if sign = '-' then some (seconds * 1000000 + fraction, -offset)
      else none

section Reading

variable {digits rest : List Char} {mark : Char}

theorem takeNumber_append (hdigits : ∀ c ∈ digits, c.isDigit = true)
    (hrest : ∀ c ∈ rest.head?, c.isDigit = false) :
    takeNumber (digits ++ rest) = (number digits, rest) := by
  rw [takeNumber, List.takeWhile_append_of_pos hdigits, List.dropWhile_append_of_pos hdigits]
  cases rest with
  | nil => simp
  | cons c cs => simp [hrest c rfl]

theorem takeMarked_marked {part : Option (List Char)}
    (hpart : ∀ digits ∈ part, ∀ c ∈ digits, c.isDigit = true)
    (hrest : ∀ c ∈ rest.head?, c.isDigit = false) (hnone : part = none → rest.head? ≠ some mark) :
    takeMarked mark (marked mark part ++ rest) = (numberOf part, rest) := by
  cases part with
  | none =>
    cases rest with
    | nil => rfl
    | cons c cs =>
      have hc : c ≠ mark := by simpa using hnone rfl
      simp [marked, takeMarked, numberOf, hc]
  | some digits =>
    rw [marked, List.cons_append, takeMarked, if_pos rfl, takeNumber_append (hpart digits rfl) hrest]
    rfl

/-- A part that is there begins with its mark, and otherwise the rest follows. -/
theorem isDigit_head_marked {part : Option (List Char)} (hmark : mark.isDigit = false)
    (hrest : ∀ c ∈ rest.head?, c.isDigit = false) :
    ∀ c ∈ (marked mark part ++ rest).head?, c.isDigit = false := by
  cases part with
  | none => exact hrest
  | some digits => simpa [marked] using hmark

theorem takeClock_text (c : Clock) (hrest : ∀ d ∈ rest.head?, d.isDigit = false ∧ d ≠ ':') :
    takeClock (c.text ++ rest) = (c.total, rest) := by
  have hdigit : ∀ d ∈ rest.head?, d.isDigit = false := fun d hd ↦ (hrest d hd).1
  have hcolon : rest.head? ≠ some ':' := fun h ↦ (hrest ':' h).2 rfl
  -- What stands where minutes are left out is not a colon, since there are no seconds either.
  have hminutes : c.minutes = none → (marked ':' c.seconds ++ rest).head? ≠ some ':' := by
    intro hnone
    have hseconds : c.seconds = none := by
      have := mt c.minutes_of_seconds
      simpa [hnone] using this
    rwa [hseconds]
  rw [Clock.text, List.append_assoc, List.append_assoc, takeClock,
    takeNumber_append c.isHours.isDigit
      (isDigit_head_marked (by decide) (isDigit_head_marked (by decide) hdigit))]
  dsimp only
  rw [takeMarked_marked (fun d hd ↦ (c.isSixtieth_minutes d hd).isDigit)
    (isDigit_head_marked (by decide) hdigit) hminutes]
  dsimp only
  rw [takeMarked_marked (fun d hd ↦ (c.isSixtieth_seconds d hd).isDigit) hdigit
    fun _ ↦ hcolon]
  rfl

/-- Every text of the form is read as its parts say. -/
theorem read_text (p : Parts) : read p.text = some (p.micros, p.offsetSeconds) := by
  obtain ⟨sign, hsign, hor⟩ : ∃ sign, (if p.negative then '-' else '+') = sign ∧
      (sign = '+' ∨ sign = '-') := ⟨_, rfl, by cases p.negative <;> simp⟩
  have hdigit : sign.isDigit = false := by rcases hor with rfl | rfl <;> rfl
  have hcolon : ':' ≠ sign := by rcases hor with rfl | rfl <;> decide
  have hpoint : '.' ≠ sign := by rcases hor with rfl | rfl <;> decide
  have hbehind : ∀ c ∈ (marked '.' p.fraction ++ sign :: p.offset.text).head?,
      c.isDigit = false ∧ c ≠ ':' := by
    cases p.fraction with
    | none => simpa [marked] using ⟨hdigit, hcolon.symm⟩
    | some digits => simp [marked]
  have hoffset : takeClock p.offset.text = (p.offset.total, []) := by
    rw [← List.append_nil p.offset.text]
    exact takeClock_text p.offset (by simp)
  rw [Parts.text, hsign, read, takeClock_text p.time hbehind]
  dsimp only
  rw [takeMarked_marked (fun d hd ↦ (p.isFraction d hd).isDigit) (by simpa using hdigit)
    fun _ ↦ by simpa using hpoint.symm]
  dsimp only
  rw [hoffset]
  dsimp only
  rw [Parts.micros, Parts.offsetSeconds]
  cases hneg : p.negative <;> simp only [hneg] at hsign <;> subst hsign <;> rfl

end Reading

/-! ### The text of a value -/

theorem isHours_padded (n : Nat) : IsHours (padded 2 n).toList :=
  ⟨le_length_padded 2 n, fun _ ↦ isDigit_of_mem_padded⟩

theorem isSixtieth_padded {n : Nat} (h : n < 60) : IsSixtieth (padded 2 n).toList where
  length_eq := length_padded_of_lt (by omega)
  isDigit := fun _ ↦ isDigit_of_mem_padded
  lt_sixty := by rwa [number, ofDigitChars_padded]

/-- A part that is written if it is asked for. -/
def partIf (written : Bool) (width n : Nat) : Option (List Char) :=
  if written then some (padded width n).toList else none

/-- The clock of a number of seconds, with minutes and seconds if they are asked for. -/
def Clock.ofSeconds (n : Nat) (minutes seconds : Bool) (h : seconds → minutes) : Clock where
  hours := (padded 2 (n / 3600)).toList
  minutes := partIf minutes 2 (n / 60 % 60)
  seconds := partIf seconds 2 (n % 60)
  isHours := isHours_padded _
  isSixtieth_minutes := by
    cases minutes <;> simp [partIf, isSixtieth_padded, Nat.mod_lt]
  isSixtieth_seconds := by
    cases seconds <;> simp [partIf, isSixtieth_padded, Nat.mod_lt]
  minutes_of_seconds := by
    cases minutes <;> cases seconds <;> simp_all [partIf]

theorem numberOf_partIf {written : Bool} {width n : Nat} (h : written = false → n = 0) :
    numberOf (partIf written width n) = n := by
  cases written with
  | false => exact (h rfl).symm
  | true => exact ofDigitChars_padded width n

theorem Clock.total_ofSeconds {n : Nat} {minutes seconds : Bool} {h : seconds → minutes}
    (hminutes : minutes = false → n / 60 % 60 = 0) (hseconds : seconds = false → n % 60 = 0) :
    (ofSeconds n minutes seconds h).total = n := by
  simp only [total, ofSeconds, number, ofDigitChars_padded, numberOf_partIf hminutes,
    numberOf_partIf hseconds]
  omega

/-- The parts of the text of a value. -/
def parts (t : TimeTz) : Parts where
  time := .ofSeconds (t.micros.toNat / 1000000) true true id
  fraction := partIf (t.micros.toNat % 1000000 ≠ 0) 6 (t.micros.toNat % 1000000)
  negative := t.offsetSeconds.toInt < 0
  offset := .ofSeconds t.offsetSeconds.toInt.natAbs (t.offsetSeconds.toInt.natAbs % 3600 ≠ 0)
    (t.offsetSeconds.toInt.natAbs % 60 ≠ 0) (by simp only [decide_eq_true_eq]; omega)
  isFraction := by
    intro digits h
    obtain ⟨-, rfl⟩ : _ ∧ _ = digits := by simpa [partIf] using h
    exact ⟨length_padded_of_lt (Nat.mod_lt _ (by decide)), fun _ ↦ isDigit_of_mem_padded⟩

theorem marked_partIf (mark : Char) (width n : Nat) :
    marked mark (partIf (n ≠ 0) width n) = optionalText mark width n := by
  by_cases h : n = 0 <;> simp [marked, partIf, optionalText, h]

theorem text_parts (t : TimeTz) : t.parts.text = t.text.toList := by
  have hminutes : marked ':' t.parts.offset.minutes =
      if t.offsetSeconds.toInt.natAbs % 3600 = 0 then []
      else ':' :: (padded 2 (t.offsetSeconds.toInt.natAbs / 60 % 60)).toList := by
    by_cases h : t.offsetSeconds.toInt.natAbs % 3600 = 0 <;>
      simp [parts, Clock.ofSeconds, marked, partIf, h]
  rw [TimeTz.text, String.toList_append, toList_timeText, toList_offsetText, magnitudeText,
    Parts.text, Clock.text, Clock.text, hminutes]
  simp only [parts, Clock.ofSeconds, marked_partIf, decide_eq_true_eq]
  simp [marked, partIf]

theorem micros_parts (t : TimeTz) : t.parts.micros = t.micros.toNat := by
  rw [Parts.micros, parts, Clock.total_ofSeconds (by simp) (by simp),
    numberOf_partIf (by simp)]
  omega

theorem offsetSeconds_parts (t : TimeTz) : t.parts.offsetSeconds = t.offsetSeconds.toInt := by
  rw [Parts.offsetSeconds, parts, Clock.total_ofSeconds _ (by simp)]
  · simp only [decide_eq_true_eq]
    split <;> omega
  · simp only [decide_eq_false_iff_not, Decidable.not_not]
    omega

/-- The text of a time with a zone can be read back, whatever the value is. It has hours, minutes and
seconds, a fraction if and only if the time is not one of whole seconds, a sign, and hours of the
offset, with its minutes and its seconds if and only if they are needed; reading finds the value; and
so no other value has the same text. -/
theorem text_readBack (t : TimeTz) :
    (∃ p : Parts, t.text.toList = p.text ∧ p.time.minutes.isSome ∧ p.time.seconds.isSome ∧
      (p.fraction.isSome ↔ t.micros.toNat % 1000000 ≠ 0) ∧
      (p.negative ↔ t.offsetSeconds.toInt < 0) ∧
      (p.offset.minutes.isSome ↔ t.offsetSeconds.toInt.natAbs / 60 % 60 ≠ 0 ∨
        t.offsetSeconds.toInt.natAbs % 60 ≠ 0) ∧
      (p.offset.seconds.isSome ↔ t.offsetSeconds.toInt.natAbs % 60 ≠ 0) ∧
      p.micros = t.micros.toNat ∧ p.offsetSeconds = t.offsetSeconds.toInt) ∧
    read t.text.toList = some (t.micros.toNat, t.offsetSeconds.toInt) ∧
    ∀ u : TimeTz, u.text = t.text ↔ u = t := by
  have hread : ∀ t : TimeTz, read t.text.toList = some (t.micros.toNat, t.offsetSeconds.toInt) := by
    intro t
    rw [← text_parts, read_text, micros_parts, offsetSeconds_parts]
  refine ⟨⟨t.parts, t.text_parts.symm, rfl, rfl, ?_, ?_, ?_, ?_, t.micros_parts,
    t.offsetSeconds_parts⟩, hread t, fun u ↦ ⟨fun h ↦ ?_, congrArg TimeTz.text⟩⟩
  · simp [parts, partIf]
  · simp [parts]
  · have hwhole : t.offsetSeconds.toInt.natAbs % 3600 ≠ 0 ↔
        t.offsetSeconds.toInt.natAbs / 60 % 60 ≠ 0 ∨ t.offsetSeconds.toInt.natAbs % 60 ≠ 0 := by
      omega
    rw [← hwhole]
    simp [parts, Clock.ofSeconds, partIf]
  · simp [parts, Clock.ofSeconds, partIf]
  · obtain ⟨hmicros, hoffset⟩ := Prod.mk.inj (Option.some.inj ((h ▸ hread u).symm.trans (hread t)))
    exact (TimeTz.mk.injEq ..).mpr ⟨UInt64.toNat_inj.1 hmicros, Int32.toInt_inj.1 hoffset⟩

/-- The largest time and the least offset. -/
example : (⟨0xFFFFFFFFFFFFFFFF, Int32.minValue⟩ : TimeTz).text =
    "5124095576:01:49.551615-596523:14:08" := by
  decide +kernel

end TimeTz

end Columnar
