import Columnar.LogicalType.Canonical
import Columnar.Proofs.Readable

/-!
# Labels name one type each

The SQL label of a type says all there is to the type, as long as the type is made from its parts
alone: then no other such type has the same label (`LogicalType.label_injective`), whatever names,
tags and dictionary values are written in it.

A label is a name with parameters in brackets, and behind it the brackets of lists and arrays, the
innermost first. So a type is taken for the type under its lists and arrays, with those as suffixes
(`withSuffixes`). Names end where a bracket or a comma comes (`append_inj_of_span`), and each kind of
parameters can be read back; the induction is on the type, with any suffixes behind its label.
-/

namespace Columnar

/-! ### Names -/

namespace TypeId

/-- Whether a character may occur in the name of a type. -/
def isNameChar (c : Char) : Bool := c.isAlpha || c == '_' || c == ' '

theorem isNameChar_of_mem {id : TypeId} {c : Char} (h : c ∈ id.name.toList) :
    isNameChar c = true := by
  have hall : id.name.toList.all isNameChar = true := by cases id <;> decide
  exact List.all_eq_true.1 hall c h

theorem name_injective {a b : TypeId} (h : a.name = b.name) : a = b := by
  have hfind : ∀ id : TypeId, all.find? (fun other ↦ other.name == id.name) = some id := by
    intro id
    cases id <;> decide
  exact Option.some.inj ((hfind a).symm.trans (h ▸ hfind b))

end TypeId

namespace LogicalType

/-! ### Types made from their parts -/

/-- The type is made from its parts alone: every dictionary has the index type that its size calls
for, and the identifiers that stand by themselves are those which have no columns. -/
def IsCanonical (t : LogicalType) : Prop := t.canonical? = some t

instance : DecidablePred IsCanonical := fun t ↦ inferInstanceAs (Decidable (t.canonical? = some t))

theorem isCanonical_enumeration_iff {t : EnumType} :
    (enumeration t).IsCanonical ↔ t.internalType = t.derivedType := by
  obtain ⟨values, internalType⟩ := t
  simp [IsCanonical, canonical?, EnumType.ofValues, EnumType.derivedType, eq_comm]

theorem isCanonical_list_iff {element : LogicalType} :
    (list element).IsCanonical ↔ element.IsCanonical := by
  simp [IsCanonical, canonical?]

theorem isCanonical_array_iff {element : LogicalType} {length : UInt64} :
    (array element length).IsCanonical ↔ element.IsCanonical := by
  simp [IsCanonical, canonical?]

theorem isCanonical_map_iff {key value : LogicalType} :
    (map key value).IsCanonical ↔ key.IsCanonical ∧ value.IsCanonical := by
  simp [IsCanonical, canonical?, bind, Option.bind_eq_some_iff, pure]

theorem canonicalFields?_eq_some_iff {fields : List (String × LogicalType)} :
    canonicalFields? fields = some fields ↔ ∀ f ∈ fields, f.2.IsCanonical := by
  induction fields with
  | nil => simp [canonicalFields?]
  | cons f fields ih =>
    rw [List.forall_mem_cons, ← ih]
    simp [IsCanonical, canonicalFields?, bind, Option.bind_eq_some_iff, pure, Prod.ext_iff]

theorem isCanonical_struct_iff {fields : List (String × LogicalType)} :
    (struct fields).IsCanonical ↔ ∀ f ∈ fields, f.2.IsCanonical := by
  rw [← canonicalFields?_eq_some_iff]
  simp [IsCanonical, canonical?]

theorem isCanonical_union_iff {alternatives : List (String × LogicalType)} :
    (union alternatives).IsCanonical ↔ ∀ a ∈ alternatives, a.2.IsCanonical := by
  rw [← canonicalFields?_eq_some_iff]
  simp [IsCanonical, canonical?]

/-! ### Suffixes -/

/-- The type of lists, or of arrays of the given length, of what the type is. -/
def withSuffix (t : LogicalType) : Option UInt64 → LogicalType
  | none => .list t
  | some length => .array t length

/-- The type with lists and arrays around it, the innermost first. -/
def withSuffixes (t : LogicalType) (suffixes : List (Option UInt64)) : LogicalType :=
  suffixes.foldl withSuffix t

/-- What stands between the brackets of a suffix. -/
def lengthText : Option UInt64 → List Char
  | none => []
  | some length => length.toNat.repr.toList

/-- The text of suffixes. -/
def suffixText (suffixes : List (Option UInt64)) : List Char :=
  suffixes.flatMap fun suffix ↦ '[' :: (lengthText suffix ++ [']'])

theorem isDigit_of_mem_lengthText {suffix : Option UInt64} {c : Char}
    (h : c ∈ lengthText suffix) : c.isDigit = true := by
  cases suffix with
  | none => simp [lengthText] at h
  | some length => exact isDigit_of_mem_repr h

theorem lengthText_injective {a b : Option UInt64} (h : lengthText a = lengthText b) : a = b := by
  cases a with
  | none =>
    cases b with
    | none => rfl
    | some m => exact absurd h.symm (by simp [lengthText, Nat.toList_repr])
  | some n =>
    cases b with
    | none => exact absurd h (by simp [lengthText, Nat.toList_repr])
    | some m =>
      rw [lengthText, lengthText, Nat.toList_repr, Nat.toList_repr] at h
      rw [UInt64.toNat_inj.1 (toDigits_injective h)]

@[simp] theorem suffixText_nil : suffixText [] = [] := rfl

@[simp] theorem suffixText_cons (suffix : Option UInt64) (suffixes : List (Option UInt64)) :
    suffixText (suffix :: suffixes) = '[' :: (lengthText suffix ++ ']' :: suffixText suffixes) := by
  simp [suffixText]

/-- Suffixes end where a comma or a bracket of another kind comes. -/
theorem suffixText_append_inj {as bs : List (Option UInt64)} {r s : List Char} (hr : EndsPart r)
    (hs : EndsPart s) (h : suffixText as ++ r = suffixText bs ++ s) : as = bs ∧ r = s := by
  have hends : ∀ {a : Option UInt64} {as r s}, EndsPart s →
      suffixText (a :: as) ++ r ≠ suffixText [] ++ s := by
    rintro a as r s hs h
    obtain rfl : '[' :: (lengthText a ++ ']' :: suffixText as) ++ r = s := by simpa using h
    simpa using hs '[' rfl
  induction as generalizing bs with
  | nil =>
    rcases bs with - | ⟨b, bs⟩
    · exact ⟨rfl, h⟩
    · exact absurd h.symm (hends hr)
  | cons a as ih =>
    rcases bs with - | ⟨b, bs⟩
    · exact absurd h (hends hs)
    · simp only [suffixText_cons, List.cons_append, List.append_assoc, List.cons.injEq,
        true_and] at h
      obtain ⟨hlength, hrest⟩ := append_inj_of_span (fun _ ↦ isDigit_of_mem_lengthText)
        (fun _ ↦ isDigit_of_mem_lengthText) (by simp) (by simp) h
      obtain rfl := lengthText_injective hlength
      obtain ⟨rfl, rfl⟩ := ih (List.cons.inj hrest).2
      exact ⟨rfl, rfl⟩

theorem toList_label_withSuffix (t : LogicalType) (suffix : Option UInt64) :
    (t.withSuffix suffix).label.toList = t.label.toList ++ suffixText [suffix] := by
  cases suffix with
  | none => simp [withSuffix, label, suffixText, lengthText]
  | some length => 
    simp only [withSuffix, label, suffixText, lengthText, String.toList_append, List.append_assoc]
    simp
    rfl

theorem toList_label_withSuffixes (t : LogicalType) (suffixes : List (Option UInt64)) :
    (t.withSuffixes suffixes).label.toList = t.label.toList ++ suffixText suffixes := by
  induction suffixes generalizing t with
  | nil => simp [withSuffixes]
  | cons suffix suffixes ih =>
    rw [withSuffixes, List.foldl_cons, ← withSuffixes, ih, toList_label_withSuffix]
    simp

/-! ### Names and parameters -/

/-- The type is no list and no array. -/
def IsBare : LogicalType → Prop
  | .list _ | .array .. => False
  | .fixed _ | .string _ | .decimal _ | .enumeration _ | .struct _ | .map .. | .union _
  | .other _ => True

/-- Every type is a type that is no list and no array, with suffixes. -/
theorem exists_withSuffixes (t : LogicalType) (h : t.IsCanonical) :
    ∃ (u : LogicalType) (suffixes : _), t = u.withSuffixes suffixes ∧ u.IsBare ∧ u.IsCanonical := by
  induction t using LogicalType.inductionOn with
  | list element ih =>
    obtain ⟨u, suffixes, rfl, hu⟩ := ih (isCanonical_list_iff.1 h)
    exact ⟨u, suffixes ++ [none], by simp [withSuffixes, withSuffix], hu⟩
  | array element length ih =>
    obtain ⟨u, suffixes, rfl, hu⟩ := ih (isCanonical_array_iff.1 h)
    exact ⟨u, suffixes ++ [some length], by simp [withSuffixes, withSuffix], hu⟩
  | _ => exact ⟨_, [], rfl, trivial, h⟩

/-- A field as the label of its struct writes it. -/
def fieldText (f : String × LogicalType) : List Char :=
  (identifier f.1).toList ++ ' ' :: f.2.label.toList

/-- What follows the name of the type in its label, lists and arrays apart. -/
def parameterText : LogicalType → List Char
  | .decimal t => '(' :: (t.width.toNat.repr.toList ++ ',' :: (t.scale.toNat.repr.toList ++ [')']))
  | .enumeration t =>
    '(' :: (joined (t.values.toList.map fun value ↦ (quoted '\'' value).toList) ++ [')'])
  | .struct fields | .union fields => '(' :: (joined (fields.map fieldText) ++ [')'])
  | .map key value => '(' :: (key.label.toList ++ ',' :: ' ' :: (value.label.toList ++ [')']))
  | .fixed _ | .string _ | .list _ | .array .. | .other _ => []

theorem fieldLabels_eq_map (fields : List (String × LogicalType)) :
    (fieldLabels fields).map String.toList = fields.map fieldText := by
  induction fields with
  | nil => rfl
  | cons f fields ih => simp [fieldLabels, fieldText, ih]

theorem toList_label_of_isBare {t : LogicalType} (h : t.IsBare) :
    t.label.toList = t.typeId.name.toList ++ t.parameterText := by
  cases t with
  | decimal t =>
    simp only [label, parameterText, typeId, String.toList_append]
    simp
    rfl
  | enumeration t =>
    simp only [label, parameterText, typeId, String.toList_append, toList_intercalate, List.map_map]
    simp [TypeId.name, Function.comp_def]
  | struct fields =>
    simp only [label, parameterText, typeId, String.toList_append, toList_intercalate,
      fieldLabels_eq_map]
    simp [TypeId.name]
  | map key value => simp [label, parameterText, typeId, TypeId.name]
  | union alternatives =>
    simp only [label, parameterText, typeId, String.toList_append, toList_intercalate,
      fieldLabels_eq_map]
    simp [TypeId.name]
  | list element => exact h.elim
  | array element length => exact h.elim
  | fixed kind => simp [label, parameterText, typeId]
  | string kind => simp [label, parameterText, typeId]
  | other id => simp [label, parameterText, typeId]

/-! ### Identifiers -/

/-- A plain name is not empty, and begins with no quote. -/
theorem exists_cons_of_isPlain {name : String} (h : isPlain name = true) :
    ∃ c rest, name.toList = c :: rest ∧ c ≠ '"' ∧ ∀ d ∈ c :: rest, isWordChar d = true := by
  unfold isPlain at h
  split at h
  next => cases h
  next c rest hname =>
    obtain ⟨hfirst, hrest⟩ := Bool.and_eq_true_iff.1 h
    have hc : isWordChar c = true := by
      rw [isWordChar, Char.isAlphanum]
      rcases Bool.or_eq_true_iff.1 hfirst with hc | hc <;> simp [hc]
    refine ⟨c, rest, hname, ?_, List.forall_mem_cons.2 ⟨hc, List.all_eq_true.1 hrest⟩⟩
    rintro rfl
    exact absurd hc (by decide)

/-- A plain name is not taken for a quoted one. -/
theorem plain_ne_quoted {a b : String} (ha : isPlain a = true) {r s : List Char} :
    a.toList ++ r ≠ (quoted '"' b).toList ++ s := by
  obtain ⟨c, rest, hname, hc, -⟩ := exists_cons_of_isPlain ha
  simp [hname, quoted, hc]

/-- An identifier ends at a blank. -/
theorem identifier_append_inj {a b : String} {r s : List Char}
    (h : (identifier a).toList ++ ' ' :: r = (identifier b).toList ++ ' ' :: s) :
    a = b ∧ r = s := by
  have hplain : ∀ {name : String}, isPlain name = true →
      ∀ c ∈ name.toList, isWordChar c = true := by
    intro name hname
    obtain ⟨c, rest, heq, -, hall⟩ := exists_cons_of_isPlain hname
    rwa [heq]
  unfold identifier at h
  split_ifs at h with ha hb hb
  · obtain ⟨hname, hrest⟩ := append_inj_of_span (hplain ha) (hplain hb) (by simp; decide)
      (by simp; decide) h
    exact ⟨String.toList_inj.1 hname, (List.cons.inj hrest).2⟩
  · exact absurd h (plain_ne_quoted ha)
  · exact absurd h.symm (plain_ne_quoted hb)
  · obtain ⟨rfl, hrest⟩ := quoted_append_inj (by simp) (by simp) h
    exact ⟨rfl, (List.cons.inj hrest).2⟩

/-! ### Reading labels back -/

/-- The label of the type, with any suffixes behind it, is that of no other type. -/
def ReadsBack (t : LogicalType) : Prop :=
  ∀ suffixes (u : LogicalType) r s, u.IsCanonical → EndsPart r → EndsPart s →
    t.label.toList ++ (suffixText suffixes ++ r) = u.label.toList ++ s →
      t.withSuffixes suffixes = u ∧ r = s

theorem ReadsBack.label_append_inj {t u : LogicalType} (ht : t.ReadsBack) (hu : u.IsCanonical)
    {r s : List Char} (hr : EndsPart r) (hs : EndsPart s)
    (h : t.label.toList ++ r = u.label.toList ++ s) : t = u ∧ r = s :=
  ht [] u r s hu hr hs h

/-- Suffixes with what may follow them do not begin with what may be in a name. -/
theorem not_isNameChar_of_suffixText {suffixes : List (Option UInt64)} {r : List Char}
    (hr : EndsPart r) : ∀ c ∈ (suffixText suffixes ++ r).head?, TypeId.isNameChar c = false := by
  rcases suffixes with - | ⟨suffix, suffixes⟩
  · intro c hc
    rcases hr c hc with rfl | rfl <;> decide
  · simp; decide

/-- Parameters begin with a bracket, if there are any. -/
theorem not_isNameChar_of_parameterText {t : LogicalType} {r : List Char}
    (hr : ∀ c ∈ r.head?, TypeId.isNameChar c = false) :
    ∀ c ∈ (t.parameterText ++ r).head?, TypeId.isNameChar c = false := by
  cases t with
  | fixed kind | string kind | list element | array element length | other id => exact hr
  | decimal type | enumeration type | struct fields | map key value | union alternatives =>
    simp [parameterText]; decide

/-- A bare type can be read back if its parameters can, by those who know its name. -/
theorem readsBack_of_parameters {t : LogicalType} (ht : t.IsBare)
    (h : ∀ u : LogicalType, u.IsBare → u.IsCanonical → u.typeId = t.typeId → ∀ r s,
      t.parameterText ++ r = u.parameterText ++ s → t = u ∧ r = s) : t.ReadsBack := by
  intro suffixes v r s hv hr hs hlabel
  obtain ⟨u, others, rfl, hu, hcanonical⟩ := exists_withSuffixes v hv
  rw [toList_label_withSuffixes, toList_label_of_isBare ht, toList_label_of_isBare hu,
    List.append_assoc, List.append_assoc, List.append_assoc] at hlabel
  obtain ⟨hname, hparameters⟩ := append_inj_of_span (fun _ ↦ TypeId.isNameChar_of_mem)
    (fun _ ↦ TypeId.isNameChar_of_mem)
    (not_isNameChar_of_parameterText (not_isNameChar_of_suffixText hr))
    (not_isNameChar_of_parameterText (not_isNameChar_of_suffixText hs)) hlabel
  have hid := TypeId.name_injective (String.toList_inj.1 hname)
  obtain ⟨rfl, hsuffixes⟩ := h u hu hcanonical hid.symm _ _ hparameters
  obtain ⟨rfl, rfl⟩ := suffixText_append_inj hr hs hsuffixes
  exact ⟨rfl, rfl⟩

/-- Types without parameters are determined by their identifier, and no type is by the identifiers
of the others. -/
theorem bare_cases {u : LogicalType} (hu : u.IsBare) (hc : u.IsCanonical) :
    u.parameterText = [] ∧ ofTypeId? u.typeId = some u ∨
      ofTypeId? u.typeId = none ∧
        ((∃ t, u = .decimal t) ∨ (∃ t, u = .enumeration t) ∨ (∃ fields, u = .struct fields) ∨
          (∃ key value, u = .map key value) ∨ ∃ alternatives, u = .union alternatives) := by
  cases u with
  | fixed kind =>
    refine .inl ⟨rfl, ?_⟩
    cases kind with
    | integer kind => cases kind <;> rfl
    | temporal kind => cases kind <;> rfl
    | _ => rfl
  | string kind => exact .inl ⟨rfl, by cases kind <;> rfl⟩
  | other id => exact .inl ⟨rfl, hc⟩
  | list element | array element length => exact hu.elim
  | decimal type | enumeration type | struct fields | map key value | union alternatives =>
    exact .inr ⟨rfl, by simp⟩

theorem parameter_cases {u : LogicalType} (hu : u.IsBare) (hc : u.IsCanonical)
    (h : ofTypeId? u.typeId = none) :
    (∃ t, u = .decimal t) ∨ (∃ t, u = .enumeration t) ∨ (∃ fields, u = .struct fields) ∨
      (∃ key value, u = .map key value) ∨ ∃ alternatives, u = .union alternatives := by
  obtain ⟨-, hsome⟩ | ⟨-, hcases⟩ := bare_cases hu hc
  · simp [h] at hsome
  · exact hcases

theorem readsBack_leaf {t : LogicalType} (ht : t.IsBare) (htext : t.parameterText = [])
    (hc : t.IsCanonical) : t.ReadsBack := by
  refine readsBack_of_parameters ht fun u hu huc hid r s h ↦ ?_
  obtain ⟨-, hsome⟩ | ⟨-, hcases⟩ := bare_cases ht hc
  · obtain ⟨hutext, husome⟩ | ⟨hnone, -⟩ := bare_cases hu huc
    · obtain rfl : t = u := Option.some.inj (hsome.symm.trans (hid ▸ husome))
      exact ⟨rfl, List.append_cancel_left h⟩
    · simp [hid, hsome] at hnone
  · rcases hcases with ⟨_, rfl⟩ | ⟨_, rfl⟩ | ⟨_, rfl⟩ | ⟨_, _, rfl⟩ | ⟨_, rfl⟩ <;>
      simp [parameterText] at htext

theorem readsBack_decimal (t : DecimalType) : (decimal t).ReadsBack := by
  refine readsBack_of_parameters trivial fun u hu hc hid r s h ↦ ?_
  rcases parameter_cases hu hc (by rw [hid]; rfl) with
    ⟨t', rfl⟩ | ⟨_, rfl⟩ | ⟨_, rfl⟩ | ⟨_, _, rfl⟩ | ⟨_, rfl⟩ <;> cases hid
  simp only [parameterText, List.cons_append, List.append_assoc, List.cons.injEq, true_and,
    List.nil_append] at h
  obtain ⟨hwidth, hrest⟩ := repr_append_inj (by simp) (by simp) h
  obtain ⟨hscale, hend⟩ := repr_append_inj (by simp) (by simp) (List.cons.inj hrest).2
  obtain ⟨width, scale⟩ := t
  obtain ⟨width', scale'⟩ := t'
  obtain rfl := UInt8.toNat_inj.1 hwidth
  obtain rfl := UInt8.toNat_inj.1 hscale
  exact ⟨rfl, (List.cons.inj hend).2⟩

/-- A dictionary determines the index type of an enumeration that is made from its parts. -/
theorem readsBack_enumeration {t : EnumType} (ht : (enumeration t).IsCanonical) :
    (enumeration t).ReadsBack := by
  refine readsBack_of_parameters trivial fun u hu hc hid r s h ↦ ?_
  rcases parameter_cases hu hc (by rw [hid]; rfl) with
    ⟨_, rfl⟩ | ⟨t', rfl⟩ | ⟨_, rfl⟩ | ⟨_, _, rfl⟩ | ⟨_, rfl⟩ <;> cases hid
  simp only [parameterText, List.cons_append, List.append_assoc, List.cons.injEq, true_and,
    List.nil_append] at h
  have hquote : ∀ {r}, EndsPart r → r.head? ≠ some '\'' := by
    intro r hr hhead
    simpa using hr _ hhead
  obtain ⟨hvalues, rfl⟩ := joined_append_inj
    (fun _ _ _ _ r s hr hs h ↦ quoted_append_inj (hquote hr) (hquote hs) h)
    (by simp [quoted]) h
  obtain ⟨values, internalType⟩ := t
  obtain ⟨values', internalType'⟩ := t'
  obtain rfl : values = values' := Array.toList_inj.1 hvalues
  obtain rfl : internalType = internalType' :=
    (isCanonical_enumeration_iff.1 ht).trans (isCanonical_enumeration_iff.1 hc).symm
  exact ⟨rfl, rfl⟩

/-- Named types can be read back if the types can. -/
theorem fields_append_inj {fields others : List (String × LogicalType)} {r s : List Char}
    (hfields : ∀ f ∈ fields, f.2.ReadsBack) (hothers : ∀ f ∈ others, f.2.IsCanonical)
    (h : joined (fields.map fieldText) ++ ')' :: r = joined (others.map fieldText) ++ ')' :: s) :
    fields = others ∧ r = s := by
  refine joined_append_inj (fun f hf g hg r s hr hs h ↦ ?_) (fun f r ↦ ?_) h
  · obtain ⟨name, t⟩ := f
    obtain ⟨name', u⟩ := g
    simp only [fieldText, List.append_assoc, List.cons_append] at h
    obtain ⟨rfl, hlabel⟩ := identifier_append_inj h
    obtain ⟨rfl, rfl⟩ := (hfields _ hf).label_append_inj (hothers _ hg) hr hs hlabel
    exact ⟨rfl, rfl⟩
  · -- An identifier begins with a letter, an underscore or a quote.
    by_cases hplain : isPlain f.1 = true
    · obtain ⟨c, rest, hname, -, hall⟩ := exists_cons_of_isPlain hplain
      have hc : isWordChar c = true := hall c (by simp)
      have hne : c ≠ ')' := by rintro rfl; exact absurd hc (by decide)
      simp [fieldText, identifier, hplain, hname, hne]
    · simp [fieldText, identifier, hplain, quoted]

theorem readsBack_struct {fields : List (String × LogicalType)}
    (h : ∀ f ∈ fields, f.2.ReadsBack) : (struct fields).ReadsBack := by
  refine readsBack_of_parameters trivial fun u hu hc hid r s htext ↦ ?_
  rcases parameter_cases hu hc (by rw [hid]; rfl) with
    ⟨_, rfl⟩ | ⟨_, rfl⟩ | ⟨others, rfl⟩ | ⟨_, _, rfl⟩ | ⟨_, rfl⟩ <;> cases hid
  simp only [parameterText, List.cons_append, List.append_assoc, List.cons.injEq, true_and,
    List.nil_append] at htext
  obtain ⟨rfl, rfl⟩ := fields_append_inj h (isCanonical_struct_iff.1 hc) htext
  exact ⟨rfl, rfl⟩

theorem readsBack_union {alternatives : List (String × LogicalType)}
    (h : ∀ a ∈ alternatives, a.2.ReadsBack) : (union alternatives).ReadsBack := by
  refine readsBack_of_parameters trivial fun u hu hc hid r s htext ↦ ?_
  rcases parameter_cases hu hc (by rw [hid]; rfl) with
    ⟨_, rfl⟩ | ⟨_, rfl⟩ | ⟨_, rfl⟩ | ⟨_, _, rfl⟩ | ⟨others, rfl⟩ <;> cases hid
  simp only [parameterText, List.cons_append, List.append_assoc, List.cons.injEq, true_and,
    List.nil_append] at htext
  obtain ⟨rfl, rfl⟩ := fields_append_inj h (isCanonical_union_iff.1 hc) htext
  exact ⟨rfl, rfl⟩

theorem readsBack_map {key value : LogicalType} (hkey : key.ReadsBack) (hvalue : value.ReadsBack) :
    (map key value).ReadsBack := by
  refine readsBack_of_parameters trivial fun u hu hc hid r s h ↦ ?_
  rcases parameter_cases hu hc (by rw [hid]; rfl) with
    ⟨_, rfl⟩ | ⟨_, rfl⟩ | ⟨_, rfl⟩ | ⟨key', value', rfl⟩ | ⟨_, rfl⟩ <;> cases hid
  obtain ⟨hkey', hvalue'⟩ := isCanonical_map_iff.1 hc
  simp only [parameterText, List.cons_append, List.append_assoc, List.cons.injEq, true_and,
    List.nil_append] at h
  obtain ⟨rfl, hrest⟩ := hkey.label_append_inj hkey' (by simp [EndsPart]) (by simp [EndsPart]) h
  simp only [List.cons.injEq, true_and] at hrest
  obtain ⟨rfl, hend⟩ :=
    hvalue.label_append_inj hvalue' (by simp [EndsPart]) (by simp [EndsPart]) hrest
  exact ⟨rfl, (List.cons.inj hend).2⟩

/-- Lists and arrays are read back with the type that they are of. -/
theorem readsBack_withSuffix {t : LogicalType} (h : t.ReadsBack) (suffix : Option UInt64) :
    (t.withSuffix suffix).ReadsBack := by
  intro suffixes u r s hu hr hs hlabel
  refine h (suffix :: suffixes) u r s hu hr hs ?_
  rw [← hlabel, toList_label_withSuffix]
  simp

/-- Every label can be read back. -/
theorem readsBack {t : LogicalType} (h : t.IsCanonical) : t.ReadsBack := by
  induction t using LogicalType.inductionOn with
  | fixed kind | string kind => exact readsBack_leaf trivial rfl h
  | decimal type => exact readsBack_decimal type
  | enumeration type => exact readsBack_enumeration h
  | list element ih => exact readsBack_withSuffix (ih (isCanonical_list_iff.1 h)) none
  | struct fields ih => exact readsBack_struct fun f hf ↦ ih f hf (isCanonical_struct_iff.1 h f hf)
  | map key value ihKey ihValue =>
    obtain ⟨hkey, hvalue⟩ := isCanonical_map_iff.1 h
    exact readsBack_map (ihKey hkey) (ihValue hvalue)
  | array element length ih =>
    exact readsBack_withSuffix (ih (isCanonical_array_iff.1 h)) (some length)
  | union alternatives ih =>
    exact readsBack_union fun a ha ↦ ih a ha (isCanonical_union_iff.1 h a ha)
  | other id => exact readsBack_leaf trivial rfl h

/-- Labels are unambiguous: types that are made from their parts and have the same label are the
same, whatever the names, tags and dictionary values in them. -/
theorem label_injective {t u : LogicalType} (ht : t.IsCanonical) (hu : u.IsCanonical)
    (h : t.label = u.label) : t = u :=
  ((readsBack ht).label_append_inj hu (by simp [EndsPart]) (by simp [EndsPart])
    (congrArg (·.toList ++ []) h)).1

/-- Names and values with quotes, brackets and nothing in them. -/
theorem label_injective_quoted :
    (struct [("", .enumeration ⟨#["", "it's)"], .uTinyInt⟩),
        ("a \"b\", c", .array (.list (.other .sqlNull)) 3)]).IsCanonical ∧
      (struct [("", .enumeration (.ofValues #["", "it's)"])),
        ("a \"b\", c", .array (.list (.other .sqlNull)) 3)]).label =
        "STRUCT(\"\" ENUM('', 'it''s)'), \"a \"\"b\"\", c\" NULL[][3])" ∧
      struct [("", .enumeration ⟨#["", "it's)"], .uTinyInt⟩),
          ("a \"b\", c", .array (.list (.other .sqlNull)) 3)] =
        struct [("", .enumeration (.ofValues #["", "it's)"])),
          ("a \"b\", c", .array (.list (.other .sqlNull)) 3)] :=
  ⟨by decide, by decide, label_injective (by decide) (by decide) rfl⟩

end LogicalType

end Columnar
