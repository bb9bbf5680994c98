import Mathlib.Tactic.Ring
import PaaRuntime.Lib.JsonForm

/-!
# Edits at a JSON pointer

RFC 6901 over code points, read strictly: a tilde that begins no escape is an error, and an array is
indexed by `0` or by digits without a leading zero. A pointer of at least one token names a member of
the container that its other tokens lead to; an edit changes that container and nothing else
(`edit_concat`).
-/

namespace PaaRuntime.JsonEdit

/-! ## Tokens -/

def slash : CodePoint := Fin.ofNat _ '/'.toNat

def tilde : CodePoint := Fin.ofNat _ '~'.toNat

def zero : CodePoint := Fin.ofNat _ '0'.toNat

def one : CodePoint := Fin.ofNat _ '1'.toNat

def dash : CodePoint := Fin.ofNat _ '-'.toNat

/-- `~1` is a slash and `~0` a tilde. -/
def unescape : Text → Text
  | c :: d :: s =>
    if c = tilde ∧ d = zero then tilde :: unescape s
    else if c = tilde ∧ d = one then slash :: unescape s
    else c :: unescape (d :: s)
  | s => s

/-- Every tilde begins an escape. -/
def wellFormed : Text → Bool
  | [] => true
  | [c] => c ≠ tilde
  | c :: d :: s => if c = tilde then (d = zero || d = one) && wellFormed s else wellFormed (d :: s)

/-- The tokens of a pointer. -/
def tokens (pointer : Text) : Option (List Text) :=
  match pointer.splitOn slash with
  | [] :: ts => if ts.all wellFormed then some (ts.map unescape) else none
  | _ => none

/-- `0`, or digits without a leading zero. -/
def isIndex : Text → Bool
  | [] => false
  | c :: s => isDigit c && s.all isDigit && (c ≠ zero || s.isEmpty)

/-- The array index that a token stands for. -/
def index (t : Text) : Option ℕ := if isIndex t then some t.number else none

/-! ## Containers -/

/-- Where a child stands in its container. -/
inductive Position
  | key (k : Text)
  | item (i : ℕ)

/-- What stands at a position. -/
def child (v : Value Text) (p : Position) : Option (Value Text) :=
  match v, p with
  | .dict m, .key k => Members.get? m k
  | .list l, .item i => l[i]?
  | _, _ => none

/-- The container with another value at the position. -/
def withChild (v : Value Text) (p : Position) (x : Value Text) : Value Text :=
  match v, p with
  | .dict m, .key k => .dict (Members.put m (.str k, x))
  | .list l, .item i => .list (l.set i x)
  | v, _ => v

/-- The position that a token names. -/
def position (v : Value Text) (t : Text) : Option Position :=
  match v with
  | .dict _ => some (.key t)
  | .list _ => (index t).map .item
  | .scalar _ => none

/-- A value put at a token: as the member of an object, before the item at an index, or with `-` after
the last item. -/
def putChild (v : Value Text) (t : Text) (x : Value Text) : Option (Value Text) :=
  match v with
  | .dict m => some (.dict (Members.put m (.str t, x)))
  | .list l =>
    if t = [dash] then some (.list (l ++ [x]))
    else (index t).bind fun i => if i ≤ l.length then some (.list (l.insertIdx i x)) else none
  | .scalar _ => none

/-- The container without the member or the item at a token. -/
def eraseChild (v : Value Text) (t : Text) : Option (Value Text) :=
  match v with
  | .dict m =>
    if (Members.get? m t).isSome then some (.dict (m.filter (·.1 ≠ .str t))) else none
  | .list l =>
    (index t).bind fun i => if i < l.length then some (.list (l.eraseIdx i)) else none
  | .scalar _ => none

/-! ## Documents -/

/-- The value that some tokens lead to. -/
def follow : Value Text → List Text → Option (Value Text)
  | v, [] => some v
  | v, t :: ts => (position v t).bind fun p => (child v p).bind (follow · ts)

/-- Change the container of the member that some tokens name, at the last of them. -/
def edit (f : Value Text → Text → Option (Value Text)) : Value Text → List Text →
    Option (Value Text)
  | _, [] => none
  | v, [t] => f v t
  | v, t :: u :: ts =>
    (position v t).bind fun p => (child v p).bind fun x =>
      (edit f x (u :: ts)).map (withChild v p)

/-- The document with another value at the end of a path. -/
def replace : Value Text → List Position → Value Text → Value Text
  | _, [], x => x
  | v, p :: ps, x =>
    match child v p with
    | some c => withChild v p (replace c ps x)
    | none => v

/-- Some tokens lead along a path to a value. -/
inductive Route : Value Text → List Text → List Position → Value Text → Prop
  | here (v : Value Text) : Route v [] [] v
  | step {v x n : Value Text} {t : Text} {ts : List Text} {p : Position} {ps : List Position} :
    position v t = some p → child v p = some x → Route x ts ps n → Route v (t :: ts) (p :: ps) n

section

variable {f : Value Text → Text → Option (Value Text)} {v n w : Value Text} {t : Text}
  {ts : List Text} {p : Position} {ps : List Position}

theorem edit_cons (h : ts ≠ []) : edit f v (t :: ts) = (position v t).bind fun p =>
    (child v p).bind fun x => (edit f x ts).map (withChild v p) := by
  cases ts with
  | nil => exact absurd rfl h
  | cons u ts => rw [edit]

/-- The container is edited where it stands. -/
theorem Route.edit_concat (h : Route v ts ps n) :
    edit f v (ts ++ [t]) = (f n t).map (replace v ps) := by
  induction h with
  | here v =>
    show f v t = _
    cases f v t with
    | none => rfl
    | some w => rfl
  | @step v x n u ts p ps hp hx h ih =>
    rw [List.cons_append, edit_cons (List.append_ne_nil_of_right_ne_nil ts (List.cons_ne_nil t [])),
      hp, Option.bind_some, hx, Option.bind_some, ih, Option.map_map]
    congr 1
    funext y
    show withChild v p (replace x ps y) = replace v (p :: ps) y
    rw [replace, hx]

theorem Route.follow_concat (h : Route v ts ps n) : follow v (ts ++ [t]) = follow n [t] := by
  induction h with
  | here v => rfl
  | step hp hx _ ih => rw [List.cons_append, follow, hp, Option.bind_some, hx, Option.bind_some, ih]

/-- Only what has a route can be edited. -/
theorem route_of_edit (h : edit f v (ts ++ [t]) = some w) :
    ∃ ps n x, Route v ts ps n ∧ f n t = some x := by
  induction ts generalizing v w with
  | nil => exact ⟨[], v, w, .here v, h⟩
  | cons u ts ih =>
    rw [List.cons_append,
      edit_cons (List.append_ne_nil_of_right_ne_nil ts (List.cons_ne_nil t []))] at h
    obtain ⟨p, hp, h⟩ := Option.bind_eq_some_iff.1 h
    obtain ⟨x, hx, h⟩ := Option.bind_eq_some_iff.1 h
    obtain ⟨w, hw, -⟩ := Option.map_eq_some_iff.1 h
    obtain ⟨ps, n, y, hroute, hy⟩ := ih hw
    exact ⟨p :: ps, n, y, .step hp hx hroute, hy⟩

theorem route_of_follow (h : follow v (ts ++ [t]) = some w) :
    ∃ ps n, Route v ts ps n ∧ follow n [t] = some w := by
  induction ts generalizing v with
  | nil => exact ⟨[], v, .here v, h⟩
  | cons u ts ih =>
    rw [List.cons_append, follow] at h
    obtain ⟨p, hp, h⟩ := Option.bind_eq_some_iff.1 h
    obtain ⟨x, hx, h⟩ := Option.bind_eq_some_iff.1 h
    obtain ⟨ps, n, hroute, hn⟩ := ih h
    exact ⟨p :: ps, n, .step hp hx hroute, hn⟩

end

/-! ## Indices -/

section

variable {t : Text} {i : ℕ}

theorem isIndex_of_index (h : index t = some i) : isIndex t = true ∧ t.number = i := by
  unfold index at h
  split_ifs at h with ht
  · exact ⟨ht, Option.some.inj h⟩

theorem index_of_isIndex (h : isIndex t = true) : index t = some t.number := if_pos h

/-- An index is written in digits. -/
theorem digits_of_isIndex (h : isIndex t = true) : t ≠ [] ∧ ∀ c ∈ t, isDigit c = true := by
  cases t with
  | nil => cases h
  | cons c s =>
    simp only [isIndex, Bool.and_eq_true, List.all_eq_true] at h
    exact ⟨List.cons_ne_nil c s, List.forall_mem_cons.2 ⟨h.1.1, h.1.2⟩⟩

theorem foldl_digits (s : Text) (n : ℕ) :
    n * 10 ^ s.length ≤ s.foldl (fun n c => 10 * n + (c.val - '0'.toNat)) n := by
  induction s generalizing n with
  | nil => simp
  | cons c s ih =>
    have hle := ih (10 * n + (c.val - '0'.toNat))
    rw [List.foldl_cons, List.length_cons, pow_succ]
    calc n * (10 ^ s.length * 10) = 10 * n * 10 ^ s.length := by ring
      _ ≤ (10 * n + (c.val - '0'.toNat)) * 10 ^ s.length := Nat.mul_le_mul_right _ (by omega)
      _ ≤ _ := hle

/-- Without a leading zero, a number is at least the power of ten of its digits but the first. -/
theorem pow_le_number (h : isIndex t = true) (hlen : 1 < t.length) :
    10 ^ (t.length - 1) ≤ t.number := by
  cases t with
  | nil => cases h
  | cons c s =>
    simp only [isIndex, isDigit, zero, Bool.and_eq_true, Bool.or_eq_true, decide_eq_true_eq,
      List.isEmpty_iff] at h
    obtain ⟨⟨hc, -⟩, hzero | hnil⟩ := h
    · have hne : c.val ≠ '0'.toNat := fun heq => of_decide_eq_true hzero (Fin.ext heq)
      have hpos : 1 ≤ c.val - '0'.toNat := by omega
      calc 10 ^ ((c :: s).length - 1) = 1 * 10 ^ s.length := by simp
        _ ≤ (10 * 0 + (c.val - '0'.toNat)) * 10 ^ s.length := Nat.mul_le_mul_right _ (by omega)
        _ ≤ Text.number (c :: s) := foldl_digits s _
    · subst hnil
      exact absurd hlen (lt_irrefl 1)

end

end PaaRuntime.JsonEdit
