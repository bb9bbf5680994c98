import Mathlib.Data.List.DropRight
import PaaRuntime.Lib.JsonEdit
import PaaRuntime.Lib.Prog

/-!
# The mutations of an invalid case

`conformance/_mutations.py`: a copy of a base document, edited by `set`, `remove` and `copy` mutations in
turn. A subscript is Python's: `int` reads a list index in any of the ways that it accepts, a negative
index counts from the end, and `list.insert` takes every index for a place.
-/

namespace PaaRuntime.Mutations

open JsonEdit

/-- The Unicode database: which characters beyond ASCII are spaces and decimal digits. -/
class UnicodeData where
  isSpace : CodePoint → Bool
  decimal : CodePoint → Option (Fin 10)

/-! ## Exceptions -/

/-- What a subscript, `int` or a list method raises; the two refusals of `int` are `ValueError`s. -/
inductive Raised
  | keyError (key : Text)
  | indexError (message : String)
  | typeError (message : String)
  | invalidLiteral (token : Text)
  | tooManyDigits (digits : ℕ)
  | overflowError (message : String)

/-- `except (KeyError, IndexError, TypeError, ValueError)`. -/
def Raised.caught : Raised → Bool
  | .overflowError _ => false
  | _ => true

/-- A part of an f-string. -/
inductive MessagePart
  | text (s : String)
  | repr (s : Text)
  | str (e : Raised)

inductive MutationException
  | mutationError (message : List MessagePart)
  | raised (e : Raised)

/-- `except (...) as exc: raise MutationError(f"... does not resolve: {exc}") from exc`. -/
def catching {α : Type} (message : List MessagePart) : Except Raised α → Except MutationException α
  | .ok a => .ok a
  | .error e =>
    if e.caught then .error (.mutationError (message ++ [.text " does not resolve: ", .str e]))
    else .error (.raised e)

/-- What nothing catches. -/
def escaping {α : Type} : Except Raised α → Except MutationException α
  | .ok a => .ok a
  | .error e => .error (.raised e)

/-! ## Integers -/

section

variable [UnicodeData]

/-- Spaces and decimal digits beyond ASCII stand for those of ASCII. -/
def asAscii (c : CodePoint) : CodePoint :=
  if c.val < 127 then c
  else if UnicodeData.isSpace c then Fin.ofNat _ ' '.toNat
  else match UnicodeData.decimal c with
    | some d => Fin.ofNat _ ('0'.toNat + d.val)
    | none => Fin.ofNat _ '?'.toNat

def isWhite (c : CodePoint) : Bool := c.val = ' '.toNat || 9 ≤ c.val && c.val ≤ 13

def strip (s : Text) : Text := (s.dropWhile isWhite).rdropWhile isWhite

def underscore : CodePoint := Fin.ofNat _ '_'.toNat

/-- The digits of a numeral, in which single underscores may stand between digits. -/
def digitsOf : Text → Option Text
  | [] => none
  | [c] => if isDigit c then some [c] else none
  | c :: d :: s =>
    if isDigit c then
      if d = underscore then (digitsOf s).map (c :: ·) else (digitsOf (d :: s)).map (c :: ·)
    else none

/-- `sys.get_int_max_str_digits()`. -/
def maxStrDigits : ℕ := 4300

/-- The number without its sign. -/
def magnitude (token s : Text) : Except Raised ℕ :=
  let body := s.takeWhile fun c => isDigit c || c = underscore
  match digitsOf body with
  | none => .error (.invalidLiteral token)
  | some digits =>
    if maxStrDigits < digits.length then .error (.tooManyDigits digits.length)
    else if body = s then .ok digits.number
    else .error (.invalidLiteral token)

/-- `int(token)`. -/
def int (token : Text) : Except Raised ℤ :=
  match strip (token.map asAscii) with
  | [] => .error (.invalidLiteral token)
  | c :: s =>
    if c = dash then (magnitude token s).map fun n : ℕ => -(n : ℤ)
    else if c = Fin.ofNat _ '+'.toNat then (magnitude token s).map fun n : ℕ => (n : ℤ)
    else (magnitude token (c :: s)).map fun n : ℕ => (n : ℤ)

end

/-! ## Subscripts -/

/-- The integer fits `Py_ssize_t`. -/
def IsSsize (i : ℤ) : Prop := -2 ^ 63 ≤ i ∧ i < 2 ^ 63

instance (i : ℤ) : Decidable (IsSsize i) := inferInstanceAs (Decidable (_ ∧ _))

/-- An index into a list of `n`, counted from its end where it is negative. -/
def fromEnd (n : ℕ) (i : ℤ) : ℤ := if i < 0 then i + n else i

/-- The item of a list of `n` that an index stands for. -/
def listIndex (n : ℕ) (i : ℤ) (outOfRange : String) : Except Raised (Fin n) :=
  if IsSsize i then
    if h : 0 ≤ fromEnd n i ∧ fromEnd n i < n then .ok ⟨(fromEnd n i).toNat, by omega⟩
    else .error (.indexError outOfRange)
  else .error (.indexError "cannot fit 'int' into an index-sized integer")

/-- `type(node).__name__`. -/
def typeName : Scalar Text → String
  | .null => "NoneType"
  | .bool _ => "bool"
  | .int _ => "int"
  | .float _ => "float"
  | .str _ => "str"
  | .bytes _ => "bytes"
  | .date _ => "datetime.date"
  | .datetime _ _ => "datetime.datetime"

/-- The message for a text as the index of a scalar. -/
def notSubscriptable : Scalar Text → String
  | .str _ => "string indices must be integers, not 'str'"
  | .bytes _ => "byte indices must be integers or slices, not str"
  | s => "'" ++ typeName s ++ "' object is not subscriptable"

variable [UnicodeData]

/-- `node[int(token)] if isinstance(node, list) else node[token]`, and where it stands in `node`. -/
def subscript (node : Value Text) (token : Text) : Except Raised (Position × Value Text) :=
  match node with
  | .list l => do
    let i ← listIndex l.length (← int token) "list index out of range"
    return (.item i, l[i])
  | .dict m =>
    match Members.get? m token with
    | some v => .ok (.key token, v)
    | none => .error (.keyError token)
  | .scalar s => .error (.typeError (notSubscriptable s))

/-! ## Pointers -/

/-- `token.replace("~1", "/")`, and the same for another escape. -/
def replaceEscape (digit by_ : CodePoint) : Text → Text
  | c :: d :: s =>
    if c = tilde ∧ d = digit then by_ :: replaceEscape digit by_ s
    else c :: replaceEscape digit by_ (d :: s)
  | s => s

/-- `_unescape`. -/
def unescape (token : Text) : Text := replaceEscape zero tilde (replaceEscape one slash token)

/-- The loop of `_descend` over the tokens but the last. -/
def walk : Value Text → List Text → Except Raised (List Position × Value Text)
  | node, [] => .ok ([], node)
  | node, token :: tokens => do
    let (position, child) ← subscript node token
    let (path, found) ← walk child tokens
    return (position :: path, found)

/-- A container in a document, with the path to it, and the final token. -/
structure Found where
  path : List Position
  node : Value Text
  last : Text

/-- `_descend`. -/
def descend (document : Value Text) (pointer : Text) : Except MutationException Found :=
  if pointer ≠ [] ∧ pointer.head? ≠ some slash then
    .error (.mutationError [.text "pointer ", .repr pointer, .text " does not start with '/'"])
  else
    let tokens := ((pointer.splitOn slash).drop 1).map unescape
    match tokens.getLast? with
    | none => .error (.mutationError [.text "pointer ", .repr pointer,
        .text " does not name a member"])
    | some last => do
      let (path, node) ← catching [.text "pointer ", .repr pointer] (walk document tokens.dropLast)
      return ⟨path, node, last⟩

/-- `_read`. -/
def read (document : Value Text) (pointer : Text) : Except MutationException (Value Text) := do
  let found ← descend document pointer
  let (_, value) ← catching [.text "pointer ", .repr pointer] (subscript found.node found.last)
  return value

/-! ## Mutations -/

/-- `list.insert`: an index beyond either end is that end. -/
def insert (l : List (Value Text)) (i : ℤ) (value : Value Text) :
    Except Raised (List (Value Text)) :=
  if IsSsize i then
    .ok (l.insertIdx (min (max (fromEnd l.length i) 0) l.length).toNat value)
  else .error (.overflowError "Python int too large to convert to C ssize_t")

/-- `_assign`: the container as it is then. -/
def assign (node : Value Text) (token : Text) (value : Value Text) : Except Raised (Value Text) :=
  match node with
  | .list l =>
    if token = [dash] then .ok (.list (l ++ [value]))
    else do return .list (← insert l (← int token) value)
  | .dict m => .ok (.dict (Members.put m (.str token, value)))
  | .scalar s =>
    .error (.typeError ("'" ++ typeName s ++ "' object does not support item assignment"))

/-- `del node[int(last)] if isinstance(node, list) else del node[last]`. -/
def delete (node : Value Text) (token : Text) : Except Raised (Value Text) :=
  match node with
  | .list l => do
    let i ← listIndex l.length (← int token) "list assignment index out of range"
    return .list (l.eraseIdx i)
  | .dict m =>
    if (Members.get? m token).isSome then .ok (.dict (m.filter (·.1 ≠ .str token)))
    else .error (.keyError token)
  | .scalar s =>
    .error (.typeError ("'" ++ typeName s ++ "' object doesn't support item deletion"))

/-- A mutation of a case. The published kinds are `set`, `remove` and `copy`. -/
inductive Mutation
  | set (path : Text) (value : Value Text)
  | remove (path : Text)
  | copy (path source : Text)
  | other (kind path : Text)

def Mutation.path : Mutation → Text
  | set path _ | remove path | copy path _ | other _ path => path

/-- The branches of `apply_mutations`, for the container that `_descend` returns: the document as it is
then. -/
def change (document : Value Text) (found : Found) :
    Mutation → Except MutationException (Value Text)
  | .set _ value => do
    return replace document found.path (← escaping (assign found.node found.last value))
  | .remove path => do
    return replace document found.path
      (← catching [.text "remove at ", .repr path] (delete found.node found.last))
  | .copy _ source => do
    let value ← read document source
    return replace document found.path (← escaping (assign found.node found.last value))
  | .other kind _ => .error (.mutationError [.text "unknown mutation kind ", .repr kind])

/-- The body of the loop of `apply_mutations`. -/
def mutate (document : Value Text) (mutation : Mutation) :
    Except MutationException (Value Text) := do
  let found ← descend document mutation.path
  change document found mutation

/-- The documents that a call of `apply_mutations` works on. -/
structure Documents where
  base : Value Text
  document : Value Text

def applyMutation (mutation : Mutation) : Prog MutationException Documents Unit := do
  let document ← Prog.gets Documents.document
  let changed ← liftM (mutate document mutation)
  Prog.modify fun s => { s with document := changed }

/-- `apply_mutations`. -/
def applyMutations (mutations : List Mutation) :
    Prog MutationException Documents (Value Text) := do
  Prog.modify fun s => { s with document := s.base }
  Prog.forEach applyMutation mutations
  Prog.gets Documents.document

end PaaRuntime.Mutations
