import Mathlib.Tactic.Common

/-!
# Conditions with null

The value of an SQL condition is true, false, or null. A comparison with null is null, except by
`IS`; `WHERE` keeps the rows whose condition is true.
-/

namespace PaaRuntime.SqlNull

variable {α : Type}

/-- True, false, or null. -/
abbrev Truth := Option Bool

/-- A comparison: null as soon as one side is. -/
def compare (r : α → α → Bool) (a b : Option α) : Truth :=
  a.bind fun x => b.map fun y => r x y

/-- `a = b`. -/
def eq [DecidableEq α] : Option α → Option α → Truth := compare fun x y => decide (x = y)

/-- `a < b`. -/
def lt [LT α] [DecidableLT α] : Option α → Option α → Truth := compare fun x y => decide (x < y)

/-- `a IS b`: null is null, and is nothing else. -/
def is [DecidableEq α] (a b : Option α) : Truth := some (decide (a = b))

/-- `a AND b`: false as soon as one side is. -/
def and : Truth → Truth → Truth
  | some false, _ | _, some false => some false
  | some true, some true => some true
  | _, _ => none

/-- `a OR b`: true as soon as one side is. -/
def or : Truth → Truth → Truth
  | some true, _ | _, some true => some true
  | some false, some false => some false
  | _, _ => none

/-- `WHERE` keeps a row on this value of its condition. -/
def keeps (t : Truth) : Bool := t = some true

@[simp] theorem keeps_and (a b : Truth) : keeps (and a b) = (keeps a && keeps b) := by
  rcases a with _ | _ | _ <;> rcases b with _ | _ | _ <;> rfl

@[simp] theorem keeps_or (a b : Truth) : keeps (or a b) = (keeps a || keeps b) := by
  rcases a with _ | _ | _ <;> rcases b with _ | _ | _ <;> rfl

@[simp] theorem keeps_compare (r : α → α → Bool) (x y : α) :
    keeps (compare r (some x) (some y)) = r x y := by
  unfold compare keeps
  simp

/-- No comparison with null keeps a row. -/
@[simp] theorem keeps_compare_null (r : α → α → Bool) (a : Option α) :
    keeps (compare r a none) = false := by
  cases a <;> rfl

@[simp] theorem keeps_eq [DecidableEq α] (x y : α) :
    keeps (eq (some x) (some y)) = decide (x = y) := keeps_compare _ x y

@[simp] theorem keeps_lt [LT α] [DecidableLT α] (x y : α) :
    keeps (lt (some x) (some y)) = decide (x < y) := keeps_compare _ x y

@[simp] theorem keeps_is [DecidableEq α] (a b : Option α) : keeps (is a b) = decide (a = b) := by
  unfold keeps is
  simp

end PaaRuntime.SqlNull
