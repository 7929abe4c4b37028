import Columnar.Proofs.ScalarTexts

/-!
# Texts of blobs

A blob is shown as a text of printable characters, whatever its bytes are, and the text can be read
from left to right without a doubt (`escapeBlob_readable`). A backslash is never a character of its
own: wherever one stands, the two digits of a byte follow (`BeginsGroups`), and a byte that looks
like a backslash has digits itself. So bytes that spell `\x41` and the byte `0x41` have different
texts.

Both facts are kept by what is put in front of a text: a character that is no backslash, or a whole
group (`BeginsGroups.cons`, `BeginsGroups.group`). The text is made of nothing else
(`escapeByte_cases`).
-/

namespace Columnar

/-- The character is one of those that ASCII can show, the space included. -/
def IsPrintableAscii (c : Char) : Prop := 0x20 ≤ c.toNat ∧ c.toNat ≤ 0x7e

/-- The character is a hexadecimal digit, and no lower-case letter. -/
def IsUpperDigit (c : Char) : Prop := ('0' ≤ c ∧ c ≤ '9') ∨ ('A' ≤ c ∧ c ≤ 'F')

/-- Every backslash of the text begins a group of four characters, of which the last two are
digits. -/
def BeginsGroups (text : List Char) : Prop :=
  ∀ rest, '\\' :: rest <:+ text →
    ∃ high low after, rest = 'x' :: high :: low :: after ∧ IsUpperDigit high ∧ IsUpperDigit low

instance : DecidablePred IsPrintableAscii := fun _ ↦ inferInstanceAs (Decidable (_ ∧ _))

instance : DecidablePred IsUpperDigit := fun _ ↦ inferInstanceAs (Decidable (_ ∨ _))

/-! ### Characters -/

theorem isUpperDigit_upperDigit : ∀ d < 16, IsUpperDigit (upperDigit d) := by decide

theorem IsUpperDigit.ne_backslash {c : Char} (h : IsUpperDigit c) : c ≠ '\\' := by
  rintro rfl
  exact absurd h (by decide)

theorem IsUpperDigit.isPrintableAscii {c : Char} (h : IsUpperDigit c) : IsPrintableAscii c := by
  have hle : ∀ {a b : Char}, a ≤ b → a.toNat ≤ b.toNat := fun h ↦ h
  rcases h with ⟨hlow, hhigh⟩ | ⟨hlow, hhigh⟩
  · exact ⟨Nat.le_trans (by decide) (hle hlow), Nat.le_trans (hle hhigh) (by decide)⟩
  · exact ⟨Nat.le_trans (by decide) (hle hlow), Nat.le_trans (hle hhigh) (by decide)⟩

/-- A byte is shown as a printable character that is no backslash, or as a group. -/
theorem escapeByte_cases (b : UInt8) :
    (∃ c, escapeByte b = [c] ∧ IsPrintableAscii c ∧ c ≠ '\\') ∨
      ∃ high low, escapeByte b = ['\\', 'x', high, low] ∧ IsUpperDigit high ∧ IsUpperDigit low := by
  have hlt := b.toNat_lt
  rw [escapeByte]
  split
  next h =>
    obtain ⟨hnat, hne⟩ := plainChar_of_isPlainByte h
    have hrange := (isPlainByte_iff.1 h).1
    refine .inl ⟨_, rfl, ?_, hne⟩
    rw [IsPrintableAscii, hnat]
    exact ⟨hrange.1, Nat.le_of_lt_succ hrange.2⟩
  next =>
    exact .inr ⟨_, _, rfl, isUpperDigit_upperDigit _ (by omega),
      isUpperDigit_upperDigit _ (Nat.mod_lt _ (by decide))⟩

/-! ### Texts -/

namespace BeginsGroups

variable {c high low : Char} {text : List Char}

theorem nil : BeginsGroups [] := fun _ h ↦ by simp at h

theorem cons (hc : c ≠ '\\') (h : BeginsGroups text) : BeginsGroups (c :: text) := by
  intro rest hrest
  rcases List.suffix_cons_iff.1 hrest with heq | hrest
  · exact absurd (List.cons.inj heq).1.symm hc
  · exact h rest hrest

theorem group (hhigh : IsUpperDigit high) (hlow : IsUpperDigit low) (h : BeginsGroups text) :
    BeginsGroups ('\\' :: 'x' :: high :: low :: text) := by
  intro rest hrest
  rcases List.suffix_cons_iff.1 hrest with heq | hrest
  · exact ⟨high, low, text, (List.cons.inj heq).2, hhigh, hlow⟩
  · exact (h.cons hlow.ne_backslash |>.cons hhigh.ne_backslash |>.cons (by decide)) rest hrest

end BeginsGroups

theorem beginsGroups_flatMap (bytes : List UInt8) : BeginsGroups (bytes.flatMap escapeByte) := by
  induction bytes with
  | nil => exact .nil
  | cons b bytes ih =>
    rw [List.flatMap_cons]
    obtain ⟨c, hc, -, hne⟩ | ⟨high, low, hgroup, hhigh, hlow⟩ := escapeByte_cases b
    · rw [hc]
      exact ih.cons hne
    · rw [hgroup]
      exact ih.group hhigh hlow

theorem isPrintableAscii_of_mem_escapeByte {b : UInt8} {c : Char} (hc : c ∈ escapeByte b) :
    IsPrintableAscii c := by
  obtain ⟨d, hd, hprintable, -⟩ | ⟨high, low, hgroup, hhigh, hlow⟩ := escapeByte_cases b
  · rw [hd, List.mem_singleton] at hc
    exact hc ▸ hprintable
  · simp only [hgroup, List.mem_cons, List.not_mem_nil, or_false] at hc
    obtain rfl | rfl | rfl | rfl := hc
    · decide
    · decide
    · exact hhigh.isPrintableAscii
    · exact hlow.isPrintableAscii

/-- The text of a blob is printable, all its backslashes begin groups, and what reads it from left
to right, a group as the byte of its digits and any other character as its own byte, finds the
bytes. -/
theorem escapeBlob_readable (bytes : List UInt8) :
    (∀ c ∈ (escapeBlob bytes).toList, IsPrintableAscii c) ∧
      BeginsGroups (escapeBlob bytes).toList ∧
      unescapeBlob (escapeBlob bytes).toList = some bytes := by
  refine ⟨fun c hc ↦ ?_, ?_, unescapeBlob_escapeBlob bytes⟩
  · rw [escapeBlob, String.toList_ofList] at hc
    obtain ⟨b, -, hb⟩ := List.mem_flatMap.1 hc
    exact isPrintableAscii_of_mem_escapeByte hb
  · rw [escapeBlob, String.toList_ofList]
    exact beginsGroups_flatMap bytes

/-- Bytes that look like a group, and the byte that the group would be. -/
example : escapeBlob [0x5c, 0x78, 0x34, 0x31, 0x7f, 0x41] = "\\x5Cx41\\x7FA" := by decide

end Columnar
