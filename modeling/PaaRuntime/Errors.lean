import Mathlib.Data.List.Sort
import Mathlib.Tactic.Common

/-!
# Exceptions

The exceptions a call of the runtime can raise: those of the package, those of `sqlite3`, and
those of the standard library that the package lets through. A `Fault` is a failure from outside
that may strike any single interaction of a call with its surroundings.
-/

namespace PaaRuntime

/-- The class of an exception. -/
inductive ErrorClass
  | paaDeclarationError | paaNotFoundError | paaValidationError | paaTransitionError
  | paaCorruptHistoryError | paaTerminalError | evidenceError
  | integrityError | operationalError | overflowError | runtimeError | keyError
  | fileNotFoundError | osError | memoryError | keyboardInterrupt
  deriving DecidableEq, Repr

/-- An exception with its text. -/
structure PyError where
  cls : ErrorClass
  message : String
  deriving DecidableEq, Repr

/-- Failures of the surroundings: the database, the file system, memory, a signal. -/
inductive Fault
  | operationalError | osError | memoryError | keyboardInterrupt
  deriving DecidableEq, Repr

/-- The exception a fault is seen as. -/
def Fault.toError : Fault → PyError
  | .operationalError => ⟨.operationalError, "disk I/O error"⟩
  | .osError => ⟨.osError, "Input/output error"⟩
  | .memoryError => ⟨.memoryError, ""⟩
  | .keyboardInterrupt => ⟨.keyboardInterrupt, ""⟩

/-- The classes of faults; no class of the package itself is one of them. -/
def ErrorClass.IsFault : ErrorClass → Prop
  | .operationalError | .osError | .memoryError | .keyboardInterrupt => True
  | _ => False

theorem Fault.toError_isFault (f : Fault) : f.toError.cls.IsFault := by cases f <;> trivial

/-! ## Texts -/

/-- One character of a Python string literal quoted by `quote`. -/
def pyEscape (quote c : Char) : List Char :=
  if c = '\\' ∨ c = quote then ['\\', c]
  else if c = '\n' then ['\\', 'n']
  else if c = '\r' then ['\\', 'r']
  else if c = '\t' then ['\\', 't']
  else [c]

/-- `repr` of a text: single quotes unless the text has one and no double quote. -/
def pyRepr (s : String) : String :=
  let quote := if '\'' ∈ s.toList ∧ '"' ∉ s.toList then '"' else '\''
  String.ofList (quote :: s.toList.flatMap (pyEscape quote) ++ [quote])

/-- `repr` of an exception of class `OSError` or `KeyError` with one text argument. -/
def PyError.repr (e : PyError) : String :=
  (if e.cls = .keyError then "KeyError" else "OSError") ++ "(" ++ pyRepr e.message ++ ")"

/-- `repr` of a text or `None`. -/
def pyReprOption : Option String → String
  | none => "None"
  | some s => pyRepr s

/-- `repr` of a list of texts. -/
def pyReprList (l : List String) : String := "[" ++ ", ".intercalate (l.map pyRepr) ++ "]"

/-- `sorted` of texts. -/
def pySorted (l : List String) : List String := l.insertionSort (· ≤ ·)

end PaaRuntime
