import Columnar.Json.Compact
import Columnar.Json.Document
import Columnar.Proofs.ScalarTexts

/-!
# Compact JSON texts are read back

`Json.document` is the tree of a value, with nothing left of its numbers but whether they are
integers. The reader of documents finds this tree again in the compact text of any value without
doubles (`Document.parse?_compact`).

Every part of a text is read with any text behind it, which comes out as it was. Only a number has
to be told where it ends, by what stands behind a value (`EndsValue`). The fuel of the reader is
measured by the characters that are to be read.
-/

namespace Columnar.Json

open Document

mutual

/-- The tree that the text of a value is read as. -/
def document : Json → Document
  | .null => .null
  | .bool value => .bool value
  | .int value => .integer value
  | .double _ => .real
  | .text value => .text (some value)
  | .array items => .array (itemDocuments items)
  | .object members => .object (memberDocuments members)

/-- The trees of the items of an array. -/
def itemDocuments : List Json → List Document
  | [] => []
  | item :: rest => item.document :: itemDocuments rest

/-- The trees of the members of an object. -/
def memberDocuments : List (String × Json) → List (Option String × Document)
  | [] => []
  | (name, value) :: rest => (some name, value.document) :: memberDocuments rest

end

/-! ### Strings -/

/-- The part of a string that a character is read as. -/
def pieceOf (c : Char) : Piece :=
  if escapeLetter? c = none ∧ c.toNat < 0x20 then .unit c.toNat else .char c

theorem escaped?_of_escapeLetter? {c e : Char} (h : escapeLetter? c = some e) :
    e ≠ 'u' ∧ escaped? e = some c := by
  unfold escapeLetter? at h
  split_ifs at h with hself hb hf hn hr ht
  · obtain rfl := Option.some.inj h
    rcases hself with rfl | rfl <;> decide
  all_goals
    obtain rfl := Option.some.inj h
    subst c
    decide

theorem ne_of_escapeLetter? {c : Char} (h : escapeLetter? c = none) : c ≠ '"' ∧ c ≠ '\\' := by
  unfold escapeLetter? at h
  split_ifs at h with hself
  exact not_or.1 hself

theorem toNat?_digits {n : Nat} (h : n < 0x20) :
    Text.Hex.toNat? ['0', '0', Nat.digitChar (n / 16), Nat.digitChar (n % 16)] = some n := by
  revert n
  decide

theorem pieces?_letter {e c : Char} {rest : List Char} (hunit : e ≠ 'u') (h : escaped? e = some c) :
    pieces? ('\\' :: e :: rest) = (pieces? rest).map fun p ↦ (.char c :: p.1, p.2) := by
  rw [pieces?, h]
  · cases pieces? rest <;> rfl
  · exact fun _ _ _ _ _ hu ↦ absurd hu hunit

theorem pieces?_unit {a b c d : Char} {n : Nat} {rest : List Char}
    (h : Text.Hex.toNat? [a, b, c, d] = some n) :
    pieces? ('\\' :: 'u' :: a :: b :: c :: d :: rest) =
      (pieces? rest).map fun p ↦ (.unit n :: p.1, p.2) := by
  rw [pieces?, h]
  cases pieces? rest <;> rfl

/-- A character that is no quote, no backslash and no control character stands for itself. -/
theorem pieces?_plain {c : Char} {rest : List Char} (hquote : c ≠ '"') (hslash : c ≠ '\\')
    (hcontrol : ¬ c.toNat < 0x20) :
    pieces? (c :: rest) = (pieces? rest).map fun p ↦ (.char c :: p.1, p.2) := by
  rw [pieces?]
  · simp only [hcontrol, if_false]
    cases pieces? rest <;> rfl
  · exact hquote
  · exact fun _ _ _ _ _ h ↦ absurd h hslash
  · exact fun _ _ h ↦ absurd h hslash

theorem pieces?_escapeChars (c : Char) (rest : List Char) :
    pieces? (escapeChars c ++ rest) = (pieces? rest).map fun p ↦ (pieceOf c :: p.1, p.2) := by
  unfold escapeChars pieceOf
  cases hletter : escapeLetter? c with
  | some letter =>
    obtain ⟨hunit, hescaped⟩ := escaped?_of_escapeLetter? hletter
    exact pieces?_letter hunit hescaped
  | none =>
    obtain ⟨hquote, hslash⟩ := ne_of_escapeLetter? hletter
    by_cases hcontrol : c.toNat < 0x20
    · simp only [hcontrol, and_self, if_true]
      exact pieces?_unit (toNat?_digits hcontrol)
    · simp only [hcontrol, and_false, if_false]
      exact pieces?_plain hquote hslash hcontrol

theorem pieces?_stringChars (cs tail : List Char) :
    pieces? (stringChars cs ++ tail) = some (cs.map pieceOf, tail) := by
  induction cs with
  | nil => rfl
  | cons c cs ih =>
    rw [stringChars, List.append_assoc, pieces?_escapeChars, ih]
    rfl

/-- A unit below the surrogates spells a character by itself, whatever comes next. -/
theorem spell?_unit_cons {n : Nat} {rest : List Piece} (h : n < 0xd800) :
    spell? (.unit n :: rest) = (spell? rest).map (Char.ofNat n :: ·) := by
  have hhigh : ¬ 0xd800 ≤ n := Nat.not_le.2 h
  have hlow : ¬ 0xdc00 ≤ n := fun hle ↦ hhigh (Nat.le_trans (by decide) hle)
  match rest with
  | [] | .char _ :: _ => simp [spell?, hhigh]
  | .unit m :: rest =>
    rw [spell?]
    simp [hhigh, hlow]

theorem spell?_map_pieceOf (cs : List Char) : spell? (cs.map pieceOf) = some cs := by
  induction cs with
  | nil => rfl
  | cons c cs ih =>
    rw [List.map_cons, pieceOf]
    split_ifs with hunit
    · rw [spell?_unit_cons (Nat.lt_trans hunit.2 (by decide)), ih, Char.ofNat_toNat]
      rfl
    · rw [spell?, ih]
      rfl

/-- The inside of a string is read back, up to its closing quote. -/
theorem string?_stringChars (s : String) (tail : List Char) :
    string? (stringChars s.toList ++ tail) = some (some s, tail) := by
  rw [string?, pieces?_stringChars]
  simp [spell?_map_pieceOf]

/-! ### Numbers -/

/-- What stands behind a value: nothing, the next value, or the end of an array or object. -/
def EndsValue (tail : List Char) : Prop := ∀ c ∈ tail.head?, c = ',' ∨ c = ']' ∨ c = '\x7d'

theorem EndsValue.head_not_digit {tail : List Char} (h : EndsValue tail) :
    ∀ c ∈ tail.head?, c.isDigit = false := by
  intro c hc
  rcases h c hc with rfl | rfl | rfl <;> rfl

theorem EndsValue.fraction?_eq {tail : List Char} (h : EndsValue tail) :
    fraction? tail = some (false, tail) := by
  match tail with
  | [] => rfl
  | c :: tail => rcases h c rfl with rfl | rfl | rfl <;> rfl

theorem EndsValue.exponent?_eq {tail : List Char} (h : EndsValue tail) :
    exponent? tail = some (false, tail) := by
  match tail with
  | [] => rfl
  | c :: tail => rcases h c rfl with rfl | rfl | rfl <;> rfl

/-- Digits are read as the number they spell, if none of them is a needless zero and zero has no
sign. -/
theorem number?_digits {negative : Bool} {digits tail : List Char}
    (hdigits : ∀ c ∈ digits, c.isDigit = true) (hne : digits ≠ [])
    (hlead : digits.head? = some '0' → digits.length = 1)
    (hzero : negative = true → ofDigits digits ≠ 0) (h : EndsValue tail) :
    number? negative (digits ++ tail) =
      some (.integer (if negative then -(ofDigits digits : Int) else ofDigits digits), tail) := by
  have htake : (digits ++ tail).takeWhile Char.isDigit = digits := by
    rw [List.takeWhile_append_of_pos hdigits]
    match tail with
    | [] => simp
    | c :: tail => simp [h.head_not_digit c rfl]
  have hdrop : (digits ++ tail).dropWhile Char.isDigit = tail := by
    rw [List.dropWhile_append_of_pos hdigits]
    match tail with
    | [] => rfl
    | c :: tail => simp [h.head_not_digit c rfl]
  have hstart : ¬ (digits = [] ∨ digits.head? = some '0' ∧ ¬ digits.length = 1) := by
    rintro (hnil | ⟨hhead, hlength⟩)
    · exact hne hnil
    · exact hlength (hlead hhead)
  have hsign : ¬ (negative = true ∧ ofDigits digits = 0) := fun ⟨hneg, h⟩ ↦ hzero hneg h
  rw [number?, htake, hdrop]
  simp [hstart, hsign, h.fraction?_eq, h.exponent?_eq]

theorem ofDigits_toDigits (n : Nat) : ofDigits (Nat.toDigits 10 n) = n :=
  Nat.ofDigitChars_toDigits (by decide) (by decide)

/-- A natural number is read back, with a sign before it unless it is zero. -/
theorem number?_toDigits {negative : Bool} {n : Nat} {tail : List Char}
    (hzero : negative = true → n ≠ 0) (h : EndsValue tail) :
    number? negative (Nat.toDigits 10 n ++ tail) =
      some (.integer (if negative then -(n : Int) else n), tail) := by
  have hdigits : ∀ c ∈ Nat.toDigits 10 n, c.isDigit = true :=
    fun _ ↦ Nat.isDigit_of_mem_toDigits (by decide) (by decide)
  have hlead : (Nat.toDigits 10 n).head? = some '0' → (Nat.toDigits 10 n).length = 1 := by
    intro hhead
    obtain rfl := eq_zero_of_head?_toDigits n hhead
    rfl
  rw [number?_digits hdigits Nat.toDigits_ne_nil hlead (by rwa [ofDigits_toDigits]) h,
    ofDigits_toDigits]

/-! ### Values -/

theorem skipBlanks_cons {c : Char} {cs : List Char} (h : isBlank c = false) :
    skipBlanks (c :: cs) = c :: cs :=
  List.dropWhile_cons_of_neg (by simp [h])

theorem ne_of_isDigit {c d : Char} (hc : c.isDigit = true) (hd : d.isDigit = false) : c ≠ d := by
  rintro rfl
  exact absurd hc (by simp [hd])

theorem isBlank_of_isDigit {c : Char} (h : c.isDigit = true) : isBlank c = false := by
  have hne : ∀ d : Char, d.isDigit = false → c ≠ d := fun d ↦ ne_of_isDigit h
  simp [isBlank, hne ' ' rfl, hne '\n' rfl, hne '\t' rfl, hne '\r' rfl]

/-- A digit is none of the characters that other values start with. -/
theorem value?_digit {c : Char} {cs : List Char} {fuel : Nat} (h : c.isDigit = true) :
    value? (fuel + 1) (c :: cs) = number? false (c :: cs) := by
  have hne : ∀ d : Char, d.isDigit = false → c ≠ d := fun d ↦ ne_of_isDigit h
  rw [value?, skipBlanks_cons (isBlank_of_isDigit h)]
  simp [hne '"' rfl, hne '[' rfl, hne '\x7b' rfl, hne 't' rfl, hne 'f' rfl, hne 'n' rfl,
    hne '-' rfl]

theorem value?_int {n : Int} {tail : List Char} {fuel : Nat} (h : EndsValue tail) :
    value? (fuel + 1) ((toString n).toList ++ tail) = some (.integer n, tail) := by
  rw [toList_toString_int, Nat.toList_repr]
  split_ifs with hneg
  · have hvalue : value? (fuel + 1) (['-'] ++ Nat.toDigits 10 n.natAbs ++ tail) =
        number? true (Nat.toDigits 10 n.natAbs ++ tail) := rfl
    rw [hvalue, number?_toDigits (fun _ ↦ by omega) h, if_pos rfl]
    congr 3
    omega
  · obtain ⟨d, digits, hdigits⟩ := List.exists_cons_of_ne_nil
      (Nat.toDigits_ne_nil : Nat.toDigits 10 n.natAbs ≠ [])
    have hd : d.isDigit = true :=
      Nat.isDigit_of_mem_toDigits (by decide) (by decide) (hdigits ▸ List.mem_cons_self)
    have hvalue : value? (fuel + 1) (Nat.toDigits 10 n.natAbs ++ tail) =
        number? false (Nat.toDigits 10 n.natAbs ++ tail) := by
      rw [hdigits]
      exact value?_digit hd
    rw [List.nil_append, hvalue, number?_toDigits (fun h ↦ absurd h Bool.false_ne_true) h]
    congr 3
    show (n.natAbs : Int) = n
    omega

/-- The text of a value starts with no blank, and not as an array ends. -/
theorem exists_chars_eq_cons {j : Json} (h : j.DoubleFree) :
    ∃ c cs, j.chars = c :: cs ∧ isBlank c = false ∧ c ≠ ']' := by
  cases j with
  | null => exact ⟨_, _, rfl, rfl, by decide⟩
  | bool value => cases value <;> exact ⟨_, _, rfl, rfl, by decide⟩
  | int n =>
    rw [chars, toList_toString_int, Nat.toList_repr]
    split_ifs
    · exact ⟨_, _, rfl, rfl, by decide⟩
    · obtain ⟨d, digits, hdigits⟩ := List.exists_cons_of_ne_nil
        (Nat.toDigits_ne_nil : Nat.toDigits 10 n.natAbs ≠ [])
      have hd : d.isDigit = true :=
        Nat.isDigit_of_mem_toDigits (by decide) (by decide) (hdigits ▸ List.mem_cons_self)
      exact ⟨d, digits, hdigits, isBlank_of_isDigit hd, ne_of_isDigit hd rfl⟩
  | double bits => exact h.elim
  | text value => exact ⟨_, _, rfl, rfl, by decide⟩
  | array items => cases items <;> exact ⟨_, _, rfl, rfl, by decide⟩
  | object members => cases members <;> exact ⟨_, _, rfl, rfl, by decide⟩

section Steps

variable {fuel : Nat} {c : Char} {cs rest tail : List Char} {name : Option String}
  {item value : Document}

theorem value?_array (hblank : isBlank c = false) (hc : c ≠ ']') :
    value? (fuel + 1) ('[' :: c :: cs) =
      (items? fuel (c :: cs)).map fun p ↦ (.array p.1, p.2) := by
  have hbracket : skipBlanks ('[' :: c :: cs) = '[' :: c :: cs := rfl
  simp only [value?, hbracket, skipBlanks_cons hblank, Char.reduceEq, if_true, if_false]
  split
  next heq => exact absurd (List.cons.inj heq).1 hc
  next => rfl

theorem items?_more (h : value? fuel cs = some (item, ',' :: rest)) :
    items? (fuel + 1) cs = (items? fuel rest).map fun p ↦ (item :: p.1, p.2) := by
  rw [items?, h]
  rfl

theorem items?_last (h : value? fuel cs = some (item, ']' :: rest)) :
    items? (fuel + 1) cs = some ([item], rest) := by
  rw [items?, h]
  rfl

theorem members?_more (hname : string? cs = some (name, ':' :: rest))
    (h : value? fuel rest = some (value, ',' :: tail)) :
    members? (fuel + 1) ('"' :: cs) =
      (members? fuel tail).map fun p ↦ ((name, value) :: p.1, p.2) := by
  rw [members?]
  show (string? cs >>= _) = _
  rw [hname]
  show (value? fuel rest >>= _) = _
  rw [h]
  rfl

theorem members?_last (hname : string? cs = some (name, ':' :: rest))
    (h : value? fuel rest = some (value, '\x7d' :: tail)) :
    members? (fuel + 1) ('"' :: cs) = some ([(name, value)], tail) := by
  rw [members?]
  show (string? cs >>= _) = _
  rw [hname]
  show (value? fuel rest >>= _) = _
  rw [h]
  rfl

end Steps

/-- The text of the value is read back as its tree. Two units of fuel for each character are
enough. -/
def ReadsBack (j : Json) : Prop :=
  ∀ (fuel : Nat) (tail : List Char), EndsValue tail → 2 * j.chars.length ≤ fuel + 1 →
    value? (fuel + 1) (j.chars ++ tail) = some (j.document, tail)

theorem endsValue_moreItems (rest : List Json) (tail : List Char) :
    EndsValue (moreItems rest ++ tail) := by
  cases rest with
  | nil => exact fun c hc ↦ .inr (.inl (Option.some.inj hc).symm)
  | cons item rest => exact fun c hc ↦ .inl (Option.some.inj hc).symm

theorem endsValue_moreMembers (rest : List (String × Json)) (tail : List Char) :
    EndsValue (moreMembers rest ++ tail) := by
  cases rest with
  | nil => exact fun c hc ↦ .inr (.inr (Option.some.inj hc).symm)
  | cons member rest => exact fun c hc ↦ .inl (Option.some.inj hc).symm

/-- The items of an array are read back up to its closing bracket. -/
theorem items?_chars {item : Json} {rest : List Json} (hitem : item.ReadsBack)
    (hrest : ∀ item ∈ rest, item.ReadsBack) {fuel : Nat} {tail : List Char}
    (hfuel : 2 * (item.chars ++ moreItems rest).length ≤ fuel) :
    items? (fuel + 1) (item.chars ++ (moreItems rest ++ tail)) =
      some (item.document :: itemDocuments rest, tail) := by
  induction rest generalizing item fuel with
  | nil =>
    rw [List.length_append, moreItems, List.length_singleton] at hfuel
    obtain ⟨fuel, rfl⟩ : ∃ f, fuel = f + 1 := ⟨fuel - 1, by omega⟩
    exact items?_last (hitem fuel _ (endsValue_moreItems [] tail) (by omega))
  | cons next rest ih =>
    rw [List.length_append, moreItems, List.length_cons] at hfuel
    obtain ⟨fuel, rfl⟩ : ∃ f, fuel = f + 1 := ⟨fuel - 1, by omega⟩
    obtain ⟨hnext, hrest⟩ := List.forall_mem_cons.1 hrest
    have hread : value? (fuel + 1) (item.chars ++ (moreItems (next :: rest) ++ tail)) =
        some (item.document, ',' :: (next.chars ++ moreItems rest ++ tail)) :=
      hitem fuel _ (endsValue_moreItems (next :: rest) tail) (by omega)
    rw [items?_more hread, List.append_assoc, ih hnext hrest (by omega)]
    rfl

/-- The members of an object are read back up to its closing brace. -/
theorem members?_chars {name : String} {value : Json} {rest : List (String × Json)}
    (hvalue : value.ReadsBack) (hrest : ∀ m ∈ rest, m.2.ReadsBack) {fuel : Nat} {tail : List Char}
    (hfuel : 2 * (value.chars ++ moreMembers rest).length ≤ fuel) :
    members? (fuel + 1)
        ('"' :: (stringChars name.toList ++ (':' :: (value.chars ++ (moreMembers rest ++ tail))))) =
      some ((some name, value.document) :: memberDocuments rest, tail) := by
  induction rest generalizing name value fuel with
  | nil =>
    rw [List.length_append, moreMembers, List.length_singleton] at hfuel
    obtain ⟨fuel, rfl⟩ : ∃ f, fuel = f + 1 := ⟨fuel - 1, by omega⟩
    exact members?_last (string?_stringChars name _)
      (hvalue fuel _ (endsValue_moreMembers [] tail) (by omega))
  | cons next rest ih =>
    obtain ⟨nextName, next⟩ := next
    have hnext : next.ReadsBack := hrest (nextName, next) (List.mem_cons_self ..)
    rw [List.length_append, moreMembers, List.length_cons, List.length_cons, List.length_append,
      List.length_cons] at hfuel
    obtain ⟨fuel, rfl⟩ : ∃ f, fuel = f + 1 := ⟨fuel - 1, by omega⟩
    have hread : value? (fuel + 1)
        (value.chars ++ (moreMembers ((nextName, next) :: rest) ++ tail)) =
          some (value.document, ',' :: ('"' :: (stringChars nextName.toList ++
            ':' :: (next.chars ++ moreMembers rest)) ++ tail)) :=
      hvalue fuel _ (endsValue_moreMembers ((nextName, next) :: rest) tail) (by omega)
    rw [members?_more (string?_stringChars name _) hread, List.cons_append, List.append_assoc,
      List.cons_append, List.append_assoc, ih hnext (List.forall_mem_cons.1 hrest).2 (by omega)]
    rfl

theorem readsBack_text (s : String) : (Json.text s).ReadsBack := by
  intro fuel tail _ _
  show (string? (stringChars s.toList ++ tail)).map _ = _
  rw [string?_stringChars]
  rfl

theorem readsBack_array {items : List Json} (hfree : ∀ item ∈ items, item.DoubleFree)
    (h : ∀ item ∈ items, item.ReadsBack) : (Json.array items).ReadsBack := by
  intro fuel tail _ hfuel
  match items with
  | [] => rfl
  | item :: rest =>
    obtain ⟨hitem, hrest⟩ := List.forall_mem_cons.1 h
    obtain ⟨c, cs, hchars, hblank, hc⟩ := exists_chars_eq_cons (hfree item (List.mem_cons_self ..))
    have hpos : 0 < item.chars.length := by simp [hchars]
    rw [chars, List.length_cons, List.length_append] at hfuel
    obtain ⟨fuel, rfl⟩ : ∃ f, fuel = f + 1 := ⟨fuel - 1, by omega⟩
    have hitems : items? (fuel + 1) (item.chars ++ (moreItems rest ++ tail)) =
        some (item.document :: itemDocuments rest, tail) :=
      items?_chars hitem hrest (by rw [List.length_append]; omega)
    rw [chars, List.cons_append, List.append_assoc, hchars, List.cons_append,
      value?_array hblank hc, ← List.cons_append, ← hchars, hitems]
    rfl

theorem readsBack_object {members : List (String × Json)} (h : ∀ m ∈ members, m.2.ReadsBack) :
    (Json.object members).ReadsBack := by
  intro fuel tail _ hfuel
  match members with
  | [] => rfl
  | (name, value) :: rest =>
    have hvalue : value.ReadsBack := h (name, value) (List.mem_cons_self ..)
    rw [chars, List.length_cons, List.length_cons, List.length_append, List.length_cons] at hfuel
    obtain ⟨fuel, rfl⟩ : ∃ f, fuel = f + 1 := ⟨fuel - 1, by omega⟩
    have hobject : value? (fuel + 1 + 1) ((Json.object ((name, value) :: rest)).chars ++ tail) =
        (members? (fuel + 1) ('"' :: ((stringChars name.toList ++
          (':' :: (value.chars ++ moreMembers rest))) ++ tail))).map
            fun p ↦ (.object p.1, p.2) := rfl
    rw [hobject, List.append_assoc, List.cons_append, List.append_assoc,
      members?_chars hvalue (List.forall_mem_cons.1 h).2 (by omega)]
    rfl

/-! ### Whole texts -/

/-- Induction over values, where the items of an array and the members of an object are given as
members of the list. -/
@[elab_as_elim]
theorem inductionOn {motive : Json → Prop} (j : Json) (null : motive .null)
    (bool : ∀ value, motive (.bool value)) (int : ∀ value, motive (.int value))
    (double : ∀ bits, motive (.double bits)) (text : ∀ value, motive (.text value))
    (array : ∀ items, (∀ item ∈ items, motive item) → motive (.array items))
    (object : ∀ members, (∀ m ∈ members, motive m.2) → motive (.object members)) : motive j :=
  Json.rec (motive_1 := motive) (motive_2 := fun items ↦ ∀ item ∈ items, motive item)
    (motive_3 := fun members ↦ ∀ m ∈ members, motive m.2) (motive_4 := fun m ↦ motive m.2)
    null bool int double text array object (by simp) (fun _ _ h ih ↦ by simpa using ⟨h, ih⟩)
    (by simp) (fun _ _ h ih ↦ by simpa using ⟨h, by simpa using ih⟩) (fun _ _ h ↦ h) j

theorem itemsDoubleFree_iff {items : List Json} :
    ItemsDoubleFree items ↔ ∀ item ∈ items, item.DoubleFree := by
  induction items with
  | nil => simp [ItemsDoubleFree]
  | cons item items ih => rw [ItemsDoubleFree, ih, List.forall_mem_cons]

theorem membersDoubleFree_iff {members : List (String × Json)} :
    MembersDoubleFree members ↔ ∀ m ∈ members, m.2.DoubleFree := by
  induction members with
  | nil => simp [MembersDoubleFree]
  | cons m members ih => rw [MembersDoubleFree, ih, List.forall_mem_cons]

/-- The text of a value without doubles is read back. The induction is on the value. -/
theorem DoubleFree.readsBack {j : Json} (h : j.DoubleFree) : j.ReadsBack := by
  induction j using inductionOn with
  | null => exact fun _ _ _ _ ↦ rfl
  | bool value => cases value <;> exact fun _ _ _ _ ↦ rfl
  | int n => exact fun _ _ htail _ ↦ value?_int htail
  | double bits => exact h.elim
  | text s => exact readsBack_text s
  | array items ih =>
    have hfree := itemsDoubleFree_iff.1 h
    exact readsBack_array hfree fun item hitem ↦ ih item hitem (hfree item hitem)
  | object members ih =>
    have hfree := membersDoubleFree_iff.1 h
    exact readsBack_object fun m hm ↦ ih m hm (hfree m hm)

/-- The compact text of a value without doubles is a whole document, the tree of the value. -/
theorem parse?_compact {j : Json} (h : j.DoubleFree) :
    Document.parse? j.compact = some j.document := by
  have hread : value? (2 * j.chars.length + 2) (j.chars ++ []) = some (j.document, []) :=
    h.readsBack _ _ (fun c hc ↦ by cases hc) (by omega)
  rw [List.append_nil] at hread
  rw [parse?, compact, String.toList_ofList, ofChars?, hread]
  rfl

end Columnar.Json
