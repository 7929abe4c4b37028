import Columnar.Failure
import Columnar.Json.Document

/-!
# Decoding limits and options

What a reader of chunks may be told: how deep types may nest, how many rows a chunk may have, and
whether list entries are checked when a list is opened or when they are read. A configuration is
written as JSON, where everything may be left out.
-/

namespace Columnar

/-- Limits and options of decoding. -/
structure DecodeConfig where
  /-- The number of levels a type may have, the column itself included. -/
  maxNestingDepth : Nat := 64
  /-- The number of rows a chunk may have. -/
  vectorSize : Nat := 2048
  /-- Whether all entries of a list are checked when the list is opened. -/
  eagerListValidation : Bool := false
  deriving DecidableEq, Repr

namespace DecodeConfig

open Json (Document)

/-- The standard limits. -/
def standard : DecodeConfig := {}

/-- Refuses a configuration that admits nothing. -/
def validate (config : DecodeConfig) : Outcome Unit := do
  Outcome.require (0 < config.maxNestingDepth) (.argument .positiveDepth)
  Outcome.require (0 < config.vectorSize) (.argument .positiveSize)

theorem validate_eq_ok_iff {config : DecodeConfig} :
    config.validate = .ok () ↔ 0 < config.maxNestingDepth ∧ 0 < config.vectorSize := by
  by_cases hd : 0 < config.maxNestingDepth <;> by_cases hs : 0 < config.vectorSize <;>
    simp [validate, Outcome.require, Outcome.refuse, bind, Except.bind, hd, hs]

/-- The value of a field that is given, or its standard value. -/
def field? {α : Type} (read : Document → Option α) (standard : α) :
    Option Document → Option α
  | none => some standard
  | some doc => read doc

/-- A truth value. -/
def bool? : Document → Option Bool
  | .bool b => some b
  | _ => none

/-- The configuration that a document spells, as an object or as the array of its first values. -/
def ofDocument? (doc : Document) : Option DecodeConfig := do
  let [depth, size, eager] ←
    doc.record? ["max_nesting_depth", "vector_size", "eager_list_validation"] | none
  return {
    maxNestingDepth := ← field? (·.natural? UInt64.size) standard.maxNestingDepth depth
    vectorSize := ← field? (·.natural? UInt64.size) standard.vectorSize size
    eagerListValidation := ← field? bool? standard.eagerListValidation eager }

/-- The configuration that a JSON text spells. -/
def parse? (text : String) : Option DecodeConfig := do ofDocument? (← Document.parse? text)

end DecodeConfig

end Columnar
