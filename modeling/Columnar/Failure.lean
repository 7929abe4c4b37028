import Columnar.Requirement

/-!
# Failures

How reading a column can fail. A `DecodeError` is a cause that is reported to the caller, with one
wording (`DecodeError.message`) and one verdict on who is to blame (`DecodeError.isCorruption`: the
bytes, and not the caller). A `Failure` is such an error, or a breach of what a reader relies on,
which is never an answer but the end of the computation.

The verdict is a property of the cause alone; that a read of a column blames the bytes is a fact
about the readers and is not claimed here.
-/

namespace Columnar

/-- Where a byte string stops being UTF-8: the length of the text before, and the number of bytes
of the bad sequence, or `none` if the bytes end inside a character. -/
structure Utf8Refusal where
  validUpTo : Nat
  errorLength : Option Nat
  deriving DecidableEq, Repr

/-- The causes for which a chunk, a column or a row is refused. -/
inductive DecodeError where
  | invalidArgument (subject detail : String)
  | invalidFormat (element detail : String)
  | unsupportedType (name : String)
  | typeMismatch (expected actual : String)
  | invalidDecimalWidth (width : Nat)
  | invalidEnumIndex (index dictionarySize : Nat)
  | invalidDiscriminant (tag alternatives : Nat)
  | invalidUtf8 (row : Nat) (refusal : Utf8Refusal)
  | nullMapEntry (row entry : Nat)
  | nestingTooDeep (limit : Nat)
  deriving DecidableEq, Repr

namespace DecodeError

/-- A caller broke `rule`. -/
def argument (rule : ArgumentRule) : DecodeError :=
  .invalidArgument rule.requirement.subject s!"expected {rule.requirement.condition}"

/-- The bytes break `rule`. -/
def data (rule : DataRule) : DecodeError :=
  .invalidFormat rule.requirement.subject s!"vector data violates {rule.requirement.condition}"

/-- A part of a vector that a chunk does not have. -/
def missing (part : String) : DecodeError := .invalidFormat part ""

/-- The text shown to a reader. -/
def message : DecodeError → String
  | .invalidArgument subject detail => s!"invalid argument {subject}: {detail}"
  | .invalidFormat element detail => s!"invalid vector data for '{element}': {detail}"
  | .unsupportedType name => s!"unsupported logical type {name}"
  | .typeMismatch expected actual => s!"type mismatch: expected {expected}, found {actual}"
  | .invalidDecimalWidth width => s!"invalid DECIMAL width {width}, expected 1..=38"
  | .invalidEnumIndex index size =>
    s!"ENUM index {index} is out of range for a dictionary of {size} values"
  | .invalidDiscriminant tag alternatives =>
    s!"UNION tag {tag} is out of range for {alternatives} alternatives"
  | .invalidUtf8 row _ => s!"VARCHAR value at row {row} is not valid UTF-8"
  | .nullMapEntry row entry => s!"MAP entry {entry} of row {row} is null"
  | .nestingTooDeep limit => s!"logical type nesting exceeds the limit of {limit}"

/-- Whether the bytes are to blame: the engine should never have written them. -/
def isCorruption : DecodeError → Bool
  | .invalidFormat .. | .invalidDecimalWidth .. | .invalidEnumIndex .. | .invalidDiscriminant ..
  | .invalidUtf8 .. | .nullMapEntry .. => true
  | .invalidArgument .. | .unsupportedType .. | .typeMismatch .. | .nestingTooDeep .. => false

@[simp] theorem isCorruption_argument (rule : ArgumentRule) :
    (argument rule).isCorruption = false := rfl

@[simp] theorem isCorruption_data (rule : DataRule) : (data rule).isCorruption = true := rfl

@[simp] theorem isCorruption_missing (part : String) : (missing part).isCorruption = true := rfl

end DecodeError

/-- Why a computation over a chunk has no value: an error to report, or a breach of what the code
relies on (a row past the end, a window past its buffer), with its text where it has one. -/
inductive Failure where
  | error (cause : DecodeError)
  | breach (detail : Option String)
  deriving DecidableEq, Repr

/-- The result of a computation over a chunk. -/
abbrev Outcome := Except Failure

namespace Outcome

/-- Fails with an error to report. -/
def refuse {α : Type} (cause : DecodeError) : Outcome α := .error (.error cause)

/-- Fails because a condition the code relies on does not hold. -/
def broken {α : Type} : Outcome α := .error (.breach none)

/-- Fails with `cause` unless `condition` holds. -/
@[inline] def require (condition : Bool) (cause : DecodeError) : Outcome Unit :=
  if condition then .ok () else refuse cause

/-- Breaks off unless `condition` holds. -/
@[inline] def assert (condition : Bool) : Outcome Unit := if condition then .ok () else broken

/-- The results of `f` for the last `rest` of the numbers below `n`, behind those that are done
already, in reverse order. -/
def collectFrom {α : Type} {n : Nat} (f : Fin n → Outcome α) (done : List α) :
    (rest : Nat) → rest ≤ n → Outcome (List α)
  | 0, _ => .ok done.reverse
  | rest + 1, h => do
    let a ← f ⟨n - (rest + 1), by omega⟩
    collectFrom f (a :: done) rest (by omega)

/-- The results of `f` for all numbers below `n` in order, up to the first failure. Nothing is made
of the numbers behind it, so `n` may be far beyond what a list can hold. -/
def collect {α : Type} (n : Nat) (f : Fin n → Outcome α) : Outcome (List α) :=
  collectFrom f [] n (Nat.le_refl n)

theorem collectFrom_eq {α : Type} {n : Nat} (f : Nat → Outcome α) (done : List α) (rest : Nat)
    (h : rest ≤ n) : collectFrom (fun i : Fin n ↦ f i) done rest h =
      (do return done.reverse ++ (← (List.range' (n - rest) rest).mapM f)) := by
  induction rest generalizing done with
  | zero => simp [collectFrom]; rfl
  | succ rest ih =>
    rw [collectFrom, List.range'_succ, List.mapM_cons]
    simp only [bind_assoc, pure_bind]
    congr 1
    funext a
    rw [ih, show n - (rest + 1) + 1 = n - rest by omega]
    simp

/-- Collecting is a map over the numbers below `n`. -/
theorem collect_eq_mapM {α : Type} (n : Nat) (f : Nat → Outcome α) :
    collect n (fun i ↦ f i) = (List.range n).mapM f := by
  simp [collect, collectFrom_eq, List.range_eq_range']

@[simp] theorem require_true (cause : DecodeError) : require true cause = .ok () := rfl

@[simp] theorem require_false (cause : DecodeError) : require false cause = refuse cause := rfl

theorem require_eq_ok_iff {condition : Bool} {cause : DecodeError} :
    require condition cause = .ok () ↔ condition = true := by
  cases condition <;> simp [require, refuse]

theorem assert_eq_ok_iff {condition : Bool} : assert condition = .ok () ↔ condition = true := by
  cases condition <;> simp [assert, broken]

end Outcome

end Columnar
