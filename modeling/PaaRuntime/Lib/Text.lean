import Mathlib.Computability.RegularExpressions

/-!
# Texts of code points

A text is any sequence of code points, surrogates included, as Python has it. UTF-8 encodes the texts
without surrogates. A pattern is a regular expression over code points.
-/

namespace PaaRuntime

abbrev CodePoint := Fin 0x110000

instance neZeroCodePoints : @NeZero ℕ Zero.ofOfNat0 0x110000 := ⟨by decide⟩

abbrev Text := List CodePoint

/-- A digit from 0 to 9. -/
def isDigit (c : CodePoint) : Bool := '0'.toNat ≤ c.val && c.val ≤ '9'.toNat

namespace Text

/-- The text of a literal. -/
def lit (s : String) : Text := s.toList.map fun c => Fin.ofNat _ c.toNat

instance : Coe String Text := ⟨lit⟩

/-- `str(i)`, in decimal. -/
def decimal (i : ℕ) : Text := lit i.repr

/-- The number that decimal digits spell out. -/
def number (s : Text) : ℕ := s.foldl (fun n c => 10 * n + (c.val - '0'.toNat)) 0

/-- UTF-8 encodes the text: it has no surrogate. -/
def Encodable (s : Text) : Prop := ∀ c ∈ s, c.val < 0xD800 ∨ 0xDFFF < c.val

instance (s : Text) : Decidable s.Encodable := List.decidableBAll _ _

/-- `str.upper`, of a text of ASCII characters. -/
def upper (s : Text) : Text :=
  s.map fun c => if 'a'.toNat ≤ c.val ∧ c.val ≤ 'z'.toNat then Fin.ofNat _ (c.val - 32) else c

/-- `str.replace`, of one character. -/
def replace (s : Text) (c : Char) (by_ : Text) : Text :=
  s.flatMap fun d => if d.val = c.toNat then by_ else [d]

end Text

/-! ## Patterns -/

abbrev Pattern := RegularExpression CodePoint

namespace Pattern

/-- One of some characters: `[abc]`. -/
def oneOf (s : String) : Pattern := ((Text.lit s).map .char).sum

/-- One of the characters between two: `[a-z]`. -/
def range (a b : Char) : Pattern :=
  ((List.range' a.toNat (b.toNat + 1 - a.toNat)).map fun n => .char (Fin.ofNat _ n)).sum

/-- `p?`. -/
def optional (p : Pattern) : Pattern := 1 + p

/-- `p+`. -/
def plus (p : Pattern) : Pattern := p * p.star

/-- `re.fullmatch`. -/
def fullmatch (p : Pattern) (s : Text) : Bool := p.rmatch s

end Pattern

end PaaRuntime
