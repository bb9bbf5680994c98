import Mathlib.Data.String.Basic
import PaaRuntime.Lib.Value

/-!
# JSON pointers

RFC 6901: a pointer is the empty text, or tokens each after a slash, with `~1` for a slash and `~0`
for a tilde inside a token. A token names a member of an object by its key, and an item of a list by
its index in decimal without leading zeros.
-/

namespace PaaRuntime.JsonPointer

/-- One character of a token, escaped. -/
def escapeChar (c : Char) : List Char :=
  if c = '~' then ['~', '0'] else if c = '/' then ['~', '1'] else [c]

/-- The pointer of some tokens. -/
def format (tokens : List String) : String :=
  String.ofList (tokens.flatMap fun t => '/' :: t.toList.flatMap escapeChar)

def unescape : List Char → List Char
  | '~' :: '0' :: l => '~' :: unescape l
  | '~' :: '1' :: l => '/' :: unescape l
  | c :: l => c :: unescape l
  | [] => []

/-- The pieces between slashes; the first one is what precedes every slash. -/
def pieces : List Char → List Char × List (List Char)
  | [] => ([], [])
  | c :: l =>
    if c = '/' then ([], (pieces l).1 :: (pieces l).2) else (c :: (pieces l).1, (pieces l).2)

/-- The tokens of a pointer. -/
def tokens (pointer : String) : Option (List String) :=
  match pieces pointer.toList with
  | ([], ts) => some (ts.map fun t => String.ofList (unescape t))
  | (_ :: _, _) => none

/-- The index that a token stands for. -/
def index (token : String) : Option ℕ :=
  let i := Nat.ofDigitChars 10 token.toList 0
  if i.repr = token then some i else none

/-- The member or item that a token names. -/
def step (v : Value String) (token : String) : Option (Value String) :=
  match v with
  | .dict m => Members.get? m token
  | .list l => (index token).bind (l[·]?)
  | .scalar _ => none

/-- The value that some tokens lead to. -/
def follow (v : Value String) : List String → Option (Value String)
  | [] => some v
  | t :: ts => (step v t).bind (follow · ts)

/-- The value that a pointer names in a document. -/
def resolve (document : Value String) (pointer : String) : Option (Value String) :=
  (tokens pointer).bind (follow document)

/-! ## Reading a formatted pointer -/

theorem escapeChar_ne_slash {c d : Char} (h : d ∈ escapeChar c) : d ≠ '/' := by
  unfold escapeChar at h
  split_ifs at h with h₁ h₂
  · simp only [List.mem_cons, List.not_mem_nil, or_false] at h
    rcases h with rfl | rfl <;> decide
  · simp only [List.mem_cons, List.not_mem_nil, or_false] at h
    rcases h with rfl | rfl <;> decide
  · rw [List.mem_singleton.1 h]
    exact h₂

theorem unescape_cons {c : Char} (h : c ≠ '~') (l : List Char) :
    unescape (c :: l) = c :: unescape l := by
  rw [unescape]
  · rintro _ rfl
    exact absurd rfl h
  · rintro _ rfl
    exact absurd rfl h

theorem unescape_escapeChar_append (c : Char) (l : List Char) :
    unescape (escapeChar c ++ l) = c :: unescape l := by
  unfold escapeChar
  split_ifs with h₁ h₂
  · subst h₁
    rfl
  · subst h₂
    rfl
  · exact unescape_cons h₁ l

/-- Unescaping undoes escaping. -/
theorem unescape_escape (l : List Char) : unescape (l.flatMap escapeChar) = l := by
  induction l with
  | nil => rfl
  | cons c l ih => rw [List.flatMap_cons, unescape_escapeChar_append, ih]

theorem pieces_append {l : List Char} (h : ∀ c ∈ l, c ≠ '/') (l' : List Char) :
    pieces (l ++ l') = (l ++ (pieces l').1, (pieces l').2) := by
  induction l with
  | nil => rfl
  | cons c l ih =>
    have hc := h c List.mem_cons_self
    rw [List.cons_append, pieces, if_neg hc, ih fun d hd => h d (List.mem_cons_of_mem c hd)]
    rfl

theorem pieces_format (ts : List String) :
    pieces (ts.flatMap fun t => '/' :: t.toList.flatMap escapeChar) =
      ([], ts.map fun t => t.toList.flatMap escapeChar) := by
  induction ts with
  | nil => rfl
  | cons t ts ih =>
    have hslash : ∀ c ∈ t.toList.flatMap escapeChar, c ≠ '/' := by
      intro c hc
      obtain ⟨d, -, hd⟩ := List.mem_flatMap.1 hc
      exact escapeChar_ne_slash hd
    rw [List.flatMap_cons, List.cons_append, pieces, if_pos rfl, pieces_append hslash, ih]
    simp

/-- A formatted pointer is read as its tokens. -/
theorem tokens_format (ts : List String) : tokens (format ts) = some ts := by
  unfold tokens format
  rw [String.toList_ofList, pieces_format]
  simp [unescape_escape, Function.comp_def]

theorem resolve_format (document : Value String) (ts : List String) :
    resolve document (format ts) = follow document ts := by
  unfold resolve
  rw [tokens_format]
  rfl

/-- A list index is read back from its numeral. -/
@[simp] theorem index_repr (i : ℕ) : index i.repr = some i := by
  have h : Nat.ofDigitChars 10 i.repr.toList 0 = i := by
    rw [Nat.toList_repr, Nat.ofDigitChars_ten_toDigits]
  simp only [index, h, if_true]

@[simp] theorem step_dict (m : Members String) (key : String) :
    step (.dict m) key = Members.get? m key := rfl

@[simp] theorem step_list (l : List (Value String)) (i : ℕ) :
    step (.list l) i.repr = l[i]? := by
  simp [step]

@[simp] theorem follow_nil (v : Value String) : follow v [] = some v := rfl

@[simp] theorem follow_cons (v : Value String) (t : String) (ts : List String) :
    follow v (t :: ts) = (step v t).bind (follow · ts) := rfl

/-- The first token names a member of an object. -/
theorem follow_member {v w : Value String} {key : String} (h : v.member key = some w)
    (ts : List String) : follow v (key :: ts) = follow w ts := by
  obtain ⟨m, rfl⟩ := Value.dict_of_member h
  rw [follow_cons, step_dict, ← Value.member_dict, h]
  rfl

/-- A token that needs no escape. -/
def Plain (token : String) : Prop := ∀ c ∈ token.toList, c ≠ '~' ∧ c ≠ '/'

instance (token : String) : Decidable (Plain token) := List.decidableBAll _ _

@[simp] theorem format_nil : format [] = "" := rfl

theorem format_cons {token : String} (h : Plain token) (ts : List String) :
    format (token :: ts) = "/" ++ token ++ format ts := by
  have hplain : ∀ l : List Char, (∀ c ∈ l, c ≠ '~' ∧ c ≠ '/') → l.flatMap escapeChar = l := by
    intro l hl
    induction l with
    | nil => rfl
    | cons c l ih =>
      obtain ⟨⟨h₁, h₂⟩, hl⟩ := List.forall_mem_cons.1 hl
      rw [List.flatMap_cons, ih hl, escapeChar, if_neg h₁, if_neg h₂]
      rfl
  apply String.toList_inj.1
  simp [format, hplain _ h]

/-- The numeral of an index needs no escape. -/
theorem plain_repr (i : ℕ) : Plain i.repr := by
  intro c hc
  rw [Nat.toList_repr] at hc
  have hd : c.isDigit = true := Nat.isDigit_of_mem_toDigits (by decide) (by decide) hc
  constructor
  · rintro rfl
    cases hd
  · rintro rfl
    cases hd

end PaaRuntime.JsonPointer
