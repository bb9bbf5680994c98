import Mathlib.Data.List.Nodup
import Mathlib.Data.Rat.Defs
import Mathlib.Tactic.Common

/-!
# Plain values

The values that `yaml.safe_load` and `json.loads` return: scalars, lists, and mappings whose keys are
scalars. The type of texts `τ` is a parameter. A finite float is its exact rational value, a date the
number of its day, a timestamp its instant with the sort of clock it was given on.
-/

namespace PaaRuntime

/-- A floating-point number. -/
inductive PyFloat
  | finite (q : ℚ)
  | inf (negative : Bool)
  | nan
  deriving DecidableEq, Repr

/-- A value that can be hashed. -/
inductive Scalar (τ : Type)
  | null
  | bool (b : Bool)
  | int (i : ℤ)
  | float (f : PyFloat)
  | str (s : τ)
  | bytes (b : List UInt8)
  | date (day : ℤ)
  | datetime (aware : Bool) (instant : ℤ)
  deriving DecidableEq, Repr

/-- A scalar, a list or a mapping, nested to any depth. -/
inductive Value (τ : Type)
  | scalar (s : Scalar τ)
  | list (items : List (Value τ))
  | dict (members : List (Scalar τ × Value τ))

/-- The members of a mapping, in its order. -/
abbrev Members (τ : Type) := List (Scalar τ × Value τ)

variable {τ : Type}

namespace Scalar

/-- The number of an integer or a finite float; a truth value is not one. -/
def number? : Scalar τ → Option ℚ
  | int i => some i
  | float (.finite q) => some q
  | _ => none

/-- The float is finite where the scalar is one. -/
def Finite : Scalar τ → Prop
  | float (.inf _) | float .nan => False
  | _ => True

/-- JSON has the scalar: null, a truth value, a finite number or a text. -/
def isJson : Scalar τ → Bool
  | null | bool _ | int _ | float (.finite _) | str _ => true
  | _ => false

/-- The scalar is a text. -/
def isText : Scalar τ → Bool
  | str _ => true
  | _ => false

@[simp] theorem isText_iff {s : Scalar τ} : s.isText = true ↔ ∃ t, s = str t := by
  cases s <;> simp [isText]

end Scalar

namespace Value

abbrev str (s : τ) : Value τ := scalar (.str s)

abbrev int (i : ℤ) : Value τ := scalar (.int i)

/-- The text, where the value is one: `isinstance(value, str)`. -/
def text? : Value τ → Option τ
  | scalar (.str s) => some s
  | _ => none

@[simp] theorem text?_eq_some {v : Value τ} {s : τ} : v.text? = some s ↔ v = scalar (.str s) := by
  unfold text?
  split <;> simp_all

/-- `value is None`. -/
def isNull : Value τ → Bool
  | scalar .null => true
  | _ => false

@[simp] theorem isNull_eq_false {v : Value τ} : v.isNull = false ↔ v ≠ scalar .null := by
  unfold isNull
  split <;> simp_all

/-- The items, where the value is a list. -/
def items? : Value τ → Option (List (Value τ))
  | list l => some l
  | _ => none

@[simp] theorem items?_eq_some {v : Value τ} {l : List (Value τ)} :
    v.items? = some l ↔ v = list l := by
  unfold items?
  split <;> simp_all

mutual

/-- Every scalar in the value, keys included. -/
def scalars : Value τ → List (Scalar τ)
  | scalar s => [s]
  | list items => scalarsOfItems items
  | dict members => scalarsOfMembers members

def scalarsOfItems : List (Value τ) → List (Scalar τ)
  | [] => []
  | v :: l => scalars v ++ scalarsOfItems l

def scalarsOfMember : Scalar τ × Value τ → List (Scalar τ)
  | (k, v) => k :: scalars v

def scalarsOfMembers : Members τ → List (Scalar τ)
  | [] => []
  | m :: l => scalarsOfMember m ++ scalarsOfMembers l

end

/-- The scalars of a member are scalars of the mapping. -/
theorem scalars_of_mem {m : Members τ} {e : Scalar τ × Value τ} {s : Scalar τ} (he : e ∈ m)
    (hs : s ∈ e.2.scalars) : s ∈ (dict m).scalars := by
  rw [scalars]
  induction m with
  | nil => cases he
  | cons f m ih =>
    rw [scalarsOfMembers, List.mem_append]
    rcases List.mem_cons.1 he with rfl | he
    · obtain ⟨key, v⟩ := e
      exact .inl (by rw [scalarsOfMember]; exact List.mem_cons_of_mem _ hs)
    · exact .inr (ih he)

mutual

/-- How deep lists and mappings are nested. -/
def depth : Value τ → ℕ
  | scalar _ => 0
  | list items => depthItems items + 1
  | dict members => depthMembers members + 1

def depthItems : List (Value τ) → ℕ
  | [] => 0
  | v :: l => max (depth v) (depthItems l)

def depthMember : Scalar τ × Value τ → ℕ
  | (_, v) => depth v

def depthMembers : Members τ → ℕ
  | [] => 0
  | m :: l => max (depthMember m) (depthMembers l)

end

@[simp] theorem depth_scalar {s : Scalar τ} : (scalar s).depth = 0 := by rw [depth]

theorem depth_list_le {l : List (Value τ)} {n : ℕ} (h : ∀ v ∈ l, v.depth ≤ n) :
    (list l).depth ≤ n + 1 := by
  rw [depth, Nat.add_le_add_iff_right]
  induction l with
  | nil => simp [depthItems]
  | cons v l ih =>
    rw [depthItems, Nat.max_le]
    exact ⟨h v List.mem_cons_self, ih fun w hw => h w (List.mem_cons_of_mem v hw)⟩

theorem depth_dict_le {m : Members τ} {n : ℕ} (h : ∀ e ∈ m, e.2.depth ≤ n) :
    (dict m).depth ≤ n + 1 := by
  rw [depth, Nat.add_le_add_iff_right]
  induction m with
  | nil => simp [depthMembers]
  | cons e m ih =>
    obtain ⟨key, v⟩ := e
    rw [depthMembers, depthMember, Nat.max_le]
    exact ⟨h _ List.mem_cons_self, ih fun f hf => h f (List.mem_cons_of_mem _ hf)⟩

end Value

/-! ## Members -/

namespace Members

variable [DecidableEq τ]

/-- The value under a text key. -/
def get? (m : Members τ) (key : τ) : Option (Value τ) := (m.find? (·.1 = .str key)).map (·.2)

/-- Replace the value under a text key where it stands. -/
def set (m : Members τ) (key : τ) (v : Value τ) : Members τ :=
  m.map fun e => if e.1 = .str key then (e.1, v) else e

theorem mem_of_get? {m : Members τ} {key : τ} {v : Value τ} (h : m.get? key = some v) :
    (Scalar.str key, v) ∈ m := by
  unfold get? at h
  obtain ⟨e, he, rfl⟩ := Option.map_eq_some_iff.1 h
  have hk : e.1 = .str key := by simpa using List.find?_some he
  have hm := List.mem_of_find?_eq_some he
  rw [← hk]
  exact hm

/-- A key is there exactly when it has a value. -/
theorem get?_isSome {m : Members τ} {key : τ} :
    (m.get? key).isSome ↔ ∃ e ∈ m, e.1 = Scalar.str key := by
  simp [get?]

theorem get?_eq_none {m : Members τ} {key : τ} :
    m.get? key = none ↔ ∀ e ∈ m, e.1 ≠ Scalar.str key := by
  simp [get?]

/-- With distinct keys, a member is found under its key. -/
theorem get?_of_mem {m : Members τ} {key : τ} {v : Value τ} (hnodup : (m.map (·.1)).Nodup)
    (h : (Scalar.str key, v) ∈ m) : m.get? key = some v := by
  obtain ⟨w, hw⟩ := Option.isSome_iff_exists.1 (get?_isSome.2 ⟨_, h, rfl⟩)
  have heq := List.inj_on_of_nodup_map hnodup h (mem_of_get? hw) rfl
  rw [hw, (Prod.mk.inj heq).2]

/-- Replacing a value changes no other one. -/
theorem get?_set_of_ne {m : Members τ} {key key' : τ} (v : Value τ) (h : key' ≠ key) :
    (m.set key v).get? key' = m.get? key' := by
  unfold get? set
  induction m with
  | nil => rfl
  | cons e m ih =>
    by_cases he : e.1 = .str key
    · have hne : e.1 ≠ .str key' := fun h' => h (Scalar.str.inj (h'.symm.trans he))
      simp only [List.map_cons, he, ↓reduceIte, List.find?_cons, Scalar.str.injEq]
      rw [he] at hne
      simpa [hne, Ne.symm h] using ih
    · simp only [List.map_cons, he, ↓reduceIte, List.find?_cons]
      split
      · rfl
      · exact ih

/-- The replaced value is found under its key. -/
theorem get?_set_self {m : Members τ} {key : τ} {v v' : Value τ} (h : m.get? key = some v') :
    (m.set key v).get? key = some v := by
  unfold get? set at *
  induction m with
  | nil => cases h
  | cons e m ih =>
    by_cases he : e.1 = .str key
    · simp [he]
    · simp only [List.map_cons, he, ↓reduceIte, List.find?_cons, decide_false] at h ⊢
      exact ih h

end Members

namespace Value

variable [DecidableEq τ]

/-- The value under a text key, where the value is a mapping. -/
def member (v : Value τ) (key : τ) : Option (Value τ) :=
  match v with
  | dict m => Members.get? m key
  | _ => none

@[simp] theorem member_dict (m : Members τ) (key : τ) : (dict m).member key = m.get? key := rfl

/-- Only a mapping has members. -/
theorem dict_of_member {v w : Value τ} {key : τ} (h : v.member key = some w) :
    ∃ m : Members τ, v = dict m := by
  unfold member at h
  split at h
  · exact ⟨_, rfl⟩
  · cases h

theorem scalars_of_member {v w : Value τ} {key : τ} {s : Scalar τ} (h : v.member key = some w)
    (hs : s ∈ w.scalars) : s ∈ v.scalars := by
  obtain ⟨m, rfl⟩ := dict_of_member h
  exact scalars_of_mem (Members.mem_of_get? h) hs

@[simp] theorem member_scalar (s : Scalar τ) (key : τ) : (scalar s).member key = none := rfl

@[simp] theorem member_list (l : List (Value τ)) (key : τ) : (list l).member key = none := rfl

mutual

/-- A JSON document: finite numbers, and objects with distinct texts as keys. -/
def isJson : Value τ → Bool
  | scalar s => s.isJson
  | list items => isJsonItems items
  | dict members =>
    decide (members.map (·.1)).Nodup && members.all (·.1.isText) && isJsonMembers members

def isJsonItems : List (Value τ) → Bool
  | [] => true
  | v :: l => isJson v && isJsonItems l

def isJsonMember : Scalar τ × Value τ → Bool
  | (_, v) => isJson v

def isJsonMembers : Members τ → Bool
  | [] => true
  | m :: l => isJsonMember m && isJsonMembers l

end

@[simp] theorem isJson_scalar {s : Scalar τ} : (scalar s).isJson = s.isJson := by rw [isJson]

@[simp] theorem isJson_list {l : List (Value τ)} :
    (list l).isJson = true ↔ ∀ v ∈ l, v.isJson = true := by
  rw [isJson]
  induction l with
  | nil => simp [isJsonItems]
  | cons v l ih => simp [isJsonItems, ih]

@[simp] theorem isJson_dict {m : Members τ} : (dict m).isJson = true ↔
    (m.map (·.1)).Nodup ∧ (∀ e ∈ m, ∃ key, e.1 = .str key) ∧ ∀ e ∈ m, e.2.isJson = true := by
  have h : isJsonMembers m = true ↔ ∀ e ∈ m, e.2.isJson = true := by
    induction m with
    | nil => simp [isJsonMembers]
    | cons e m ih =>
      obtain ⟨key, v⟩ := e
      simp [isJsonMembers, isJsonMember, ih]
  simp [isJson, h, and_assoc]

end Value

end PaaRuntime
