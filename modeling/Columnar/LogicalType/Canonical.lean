import Columnar.LogicalType.Basic

/-!
# Canonical types

A type can be written down in more than one way where the engine has a say in it: a dictionary may
be reported with an index type that does not fit its size, and an identifier that determines a
type may stand by itself. `canonical?` is the type as it is made from its parts alone; an
identifier that asks for parameters and has none makes no type. What it makes is canonical itself
(`canonical?_of_canonical?`).
-/

namespace Columnar.LogicalType

mutual

/-- The type with the index type that the size of each dictionary calls for, and with the types that
identifiers determine. -/
def canonical? : LogicalType → Option LogicalType
  | .fixed kind => some (.fixed kind)
  | .string kind => some (.string kind)
  | .decimal t => some (.decimal t)
  | .enumeration t => some (.enumeration (.ofValues t.values))
  | .list element => element.canonical?.map .list
  | .struct fields => (canonicalFields? fields).map .struct
  | .map key value => do return .map (← key.canonical?) (← value.canonical?)
  | .array element length => element.canonical?.map (.array · length)
  | .union alternatives => (canonicalFields? alternatives).map .union
  | .other id => ofTypeId? id

/-- The canonical types of named types. -/
def canonicalFields? : List (String × LogicalType) → Option (List (String × LogicalType))
  | [] => some []
  | (name, t) :: rest => do return (name, ← t.canonical?) :: (← canonicalFields? rest)

end

theorem canonical?_ofTypeId? {id : TypeId} {t : LogicalType} (h : ofTypeId? id = some t) :
    t.canonical? = some t := by
  cases id <;> simp [ofTypeId?] at h <;> subst h <;> rfl

mutual

/-- A type that is made from its parts is made from its parts as it is. -/
theorem canonical?_of_canonical? : (t : LogicalType) → {u : LogicalType} →
    t.canonical? = some u → u.canonical? = some u
  | .fixed _, _, h | .string _, _, h | .decimal _, _, h | .enumeration _, _, h => by
    simp only [canonical?, Option.some.injEq] at h
    subst h
    rfl
  | .list element, _, h => by
    obtain ⟨e, he, rfl⟩ := Option.map_eq_some_iff.1 h
    simp [canonical?, canonical?_of_canonical? element he]
  | .struct fields, _, h => by
    obtain ⟨fs, hfs, rfl⟩ := Option.map_eq_some_iff.1 h
    simp [canonical?, canonicalFields?_of_canonicalFields? fields hfs]
  | .map key value, _, h => by
    simp only [canonical?, bind, Option.bind_eq_some_iff, pure, Option.some.injEq] at h
    obtain ⟨k, hk, v, hv, rfl⟩ := h
    simp [canonical?, canonical?_of_canonical? key hk, canonical?_of_canonical? value hv]
  | .array element length, _, h => by
    obtain ⟨e, he, rfl⟩ := Option.map_eq_some_iff.1 h
    simp [canonical?, canonical?_of_canonical? element he]
  | .union alternatives, _, h => by
    obtain ⟨as, has, rfl⟩ := Option.map_eq_some_iff.1 h
    simp [canonical?, canonicalFields?_of_canonicalFields? alternatives has]
  | .other _, _, h => canonical?_ofTypeId? (by simpa [canonical?] using h)

theorem canonicalFields?_of_canonicalFields? :
    (fields : List (String × LogicalType)) → {made : List (String × LogicalType)} →
      canonicalFields? fields = some made → canonicalFields? made = some made
  | [], _, h => by
    simp only [canonicalFields?, Option.some.injEq] at h
    subst h
    rfl
  | (name, t) :: rest, _, h => by
    simp only [canonicalFields?, bind, Option.bind_eq_some_iff, pure, Option.some.injEq] at h
    obtain ⟨u, hu, fs, hfs, rfl⟩ := h
    simp [canonicalFields?, canonical?_of_canonical? t hu,
      canonicalFields?_of_canonicalFields? rest hfs]

end

end Columnar.LogicalType
