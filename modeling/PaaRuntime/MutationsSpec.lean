import PaaRuntime.Lib.Checks
import PaaRuntime.Mutations

/-!
# Exactly the named edit, or a MutationError

`edited` is what RFC 6901 makes of a mutation. `apply_mutations` keeps the base document, and does the
named edits or raises `MutationError`, exactly where a mutation is refused, or every mutation's
pointers name by the letter of the RFC what Python's subscripts find (`applies_iff`). Elsewhere a
scalar is assigned to, or `int` reads an array index that RFC 6901 does not have (`applies_fails`).
-/

namespace PaaRuntime.Mutations

open JsonEdit

/-! ## The named edit -/

/-- The document with the edit that a mutation names. -/
def edited (document : Value Text) : Mutation → Option (Value Text)
  | .set path value => (tokens path).bind (edit (putChild · · value) document)
  | .remove path => (tokens path).bind (edit eraseChild document)
  | .copy path source =>
    ((tokens source).bind (follow document)).bind fun value =>
      (tokens path).bind (edit (putChild · · value) document)
  | .other _ _ => none

section

variable [UnicodeData]

/-- A list is indexed as in RFC 6901. -/
def Numbered (node : Value Text) (token : Text) : Prop :=
  ∀ l, node = .list l → isIndex token = true

/-- Every list on the way of the subscripts is indexed as in RFC 6901. -/
def NumberedAlong : Value Text → List Text → Prop
  | _, [] => True
  | node, t :: ts => Numbered node t ∧ ∀ p x, subscript node t = .ok (p, x) → NumberedAlong x ts

/-- What a pointer lists after its first slash. -/
def rawTokens (pointer : Text) : List Text := (pointer.splitOn slash).drop 1

/-- The pointer names by the letter of RFC 6901 what the subscripts find. -/
def Names (document : Value Text) (pointer : Text) : Prop :=
  (rawTokens pointer).all wellFormed = true ∧
    NumberedAlong document ((rawTokens pointer).map unescape)

/-- RFC 6901 has a place for a value at the token. -/
def HasPlace (node : Value Text) (token : Text) : Prop :=
  match node with
  | .dict _ => True
  | .list l => token = [dash] ∨ ∃ i, index token = some i ∧ i ≤ l.length ∧ i < 2 ^ 63
  | .scalar _ => False

/-- The pointer names by the letter of RFC 6901 a place in the container that the subscripts find. -/
def NamesPlace (document : Value Text) (pointer : Text) : Prop :=
  (rawTokens pointer).all wellFormed = true ∧
    NumberedAlong document ((rawTokens pointer).map unescape).dropLast ∧
    ∀ found, descend document pointer = .ok found → HasPlace found.node found.last

/-- The pointers of a mutation are by the letter of RFC 6901. -/
def Conforms (document : Value Text) : Mutation → Prop
  | .set path _ => NamesPlace document path
  | .remove path => Names document path
  | .copy path source => NamesPlace document path ∧ Names document source
  | .other _ _ => False

/-- A pointer of the mutation does not resolve, or its kind is unknown. -/
def Refused (document : Value Text) (mutation : Mutation) : Prop :=
  (∀ found, descend document mutation.path ≠ .ok found) ∨
    match mutation with
    | .set _ _ => False
    | .remove path => ∀ value, read document path ≠ .ok value
    | .copy _ source => ∀ value, read document source ≠ .ok value
    | .other _ _ => True

/-- One mutation, on the document that the ones before it left, is refused. -/
inductive Abandoned : Value Text → List Mutation → Prop
  | here {v : Value Text} {m : Mutation} (ms : List Mutation) : Refused v m → Abandoned v (m :: ms)
  | later {v w : Value Text} {m : Mutation} {ms : List Mutation} :
    mutate v m = .ok w → Abandoned w ms → Abandoned v (m :: ms)

/-- Every mutation conforms, on the document that the ones before it left. -/
inductive AllConform : Value Text → List Mutation → Prop
  | nil (v : Value Text) : AllConform v []
  | cons {v w : Value Text} {m : Mutation} {ms : List Mutation} :
    Conforms v m → mutate v m = .ok w → AllConform w ms → AllConform v (m :: ms)

/-- The base document is as it was, and the call raises `MutationError` or returns the base document
with the named edits in turn. -/
def Applies (s : Documents) (mutations : List Mutation) : Prop :=
  ((∃ message, (applyMutations mutations s).1 = .error (.mutationError message)) ∨
    ∃ v, (applyMutations mutations s).1 = .ok v ∧ mutations.foldlM edited s.base = some v) ∧
  (applyMutations mutations s).2.base = s.base

end

/-! ## Escapes -/

theorem replaceEscape_cons {digit by_ c : CodePoint} {s : Text}
    (h : ¬(c = tilde ∧ s.head? = some digit)) :
    replaceEscape digit by_ (c :: s) = c :: replaceEscape digit by_ s := by
  cases s with
  | nil => rfl
  | cons d s =>
    rw [replaceEscape, if_neg fun ⟨hc, hd⟩ => h ⟨hc, congrArg some hd⟩]

theorem replaceEscape_of_ne {digit by_ c : CodePoint} (s : Text) (h : c ≠ tilde) :
    replaceEscape digit by_ (c :: s) = c :: replaceEscape digit by_ s :=
  replaceEscape_cons fun hc => h hc.1

theorem zero_ne_tilde : zero ≠ tilde := by decide

theorem zero_ne_one : zero ≠ one := by decide

theorem slash_ne_tilde : slash ≠ tilde := by decide

/-- A replacement makes no digit of the other escape. -/
theorem head?_replaceEscape {digit by_ : CodePoint} {s : Text} (h : s.head? ≠ some zero)
    (hby : by_ ≠ zero) : (replaceEscape digit by_ s).head? ≠ some zero := by
  cases s with
  | nil => exact h
  | cons c s =>
    by_cases hesc : c = tilde ∧ s.head? = some digit
    · cases s with
      | nil => exact h
      | cons d s =>
        rw [replaceEscape, if_pos ⟨hesc.1, Option.some.inj hesc.2⟩]
        exact fun heq => hby (Option.some.inj heq)
    · rw [replaceEscape_cons hesc]
      exact h

/-- The two replacements are one pass over the escapes. -/
theorem unescape_eq (token : Text) : unescape token = JsonEdit.unescape token := by
  unfold unescape
  fun_induction JsonEdit.unescape token with
  | case1 c d s h ih =>
    obtain ⟨rfl, rfl⟩ := h
    have hinner : replaceEscape one slash (tilde :: zero :: s) =
        tilde :: zero :: replaceEscape one slash s := by
      have hone : ¬(tilde = tilde ∧ (zero :: s).head? = some one) :=
        fun h => zero_ne_one (Option.some.inj h.2)
      rw [replaceEscape_cons hone, replaceEscape_of_ne s zero_ne_tilde]
    rw [hinner, replaceEscape, if_pos ⟨rfl, rfl⟩, ih]
  | case2 c d s h₀ h ih =>
    obtain ⟨rfl, rfl⟩ := h
    rw [replaceEscape, if_pos ⟨rfl, rfl⟩, replaceEscape_of_ne _ slash_ne_tilde, ih]
  | case3 c d s h₀ h₁ ih =>
    rw [replaceEscape, if_neg h₁, replaceEscape_cons, ih]
    rintro ⟨hc, hhead⟩
    have hd : (d :: s).head? ≠ some zero := fun hd => h₀ ⟨hc, Option.some.inj hd⟩
    exact head?_replaceEscape hd (by decide) hhead
  | case4 s h =>
    match s, h with
    | [], _ => rfl
    | [c], _ => rfl
    | c :: d :: s, h => exact absurd rfl (h c d s)

/-- A pointer that `_descend` accepts has the tokens of RFC 6901 where its escapes are well formed. -/
theorem tokens_eq {pointer : Text} (h : ¬(pointer ≠ [] ∧ pointer.head? ≠ some slash)) : tokens pointer =
    if (rawTokens pointer).all wellFormed then some ((rawTokens pointer).map unescape)
    else none := by
  have hsplit : ∃ ts, pointer.splitOn slash = [] :: ts := by
    cases pointer with
    | nil => exact ⟨[], rfl⟩
    | cons c s =>
      have hc : c = slash := by
        by_contra hc
        exact h ⟨List.cons_ne_nil c s, fun heq => hc (Option.some.inj heq)⟩
      subst hc
      rw [List.splitOn_cons_eq_if_modifyHead, if_pos (beq_self_eq_true slash)]
      exact ⟨_, rfl⟩
  obtain ⟨ts, hts⟩ := hsplit
  have hunescape : unescape = JsonEdit.unescape := funext unescape_eq
  unfold tokens rawTokens
  rw [hts, hunescape]
  rfl

/-! ## Exceptions -/

section

variable {α : Type} {message : List MessagePart} {r : Except Raised α} {a : α}

theorem catching_error {exc : MutationException} (h : catching message r = .error exc)
    (hr : ∀ e, r = .error e → e.caught = true) : ∃ message, exc = .mutationError message := by
  cases r with
  | ok a => cases h
  | error e =>
    rw [catching, if_pos (hr e rfl)] at h
    exact ⟨_, (Except.error.inj h).symm⟩

theorem catching_refuses {e : Raised} (message : List MessagePart) (h : r = .error e)
    (he : e.caught = true) : ∃ message', catching message r = .error (.mutationError message') := by
  subst h
  exact ⟨_, if_pos he⟩

theorem catching_ok : catching message r = .ok a ↔ r = .ok a := by
  cases r with
  | ok b => simp [catching]
  | error e =>
    rw [catching]
    split_ifs <;> simp

theorem escaping_error {exc : MutationException} (h : escaping r = .error exc) :
    ∃ e, r = .error e ∧ exc = .raised e := by
  cases r with
  | ok a => cases h
  | error e => exact ⟨e, rfl, (Except.error.inj h).symm⟩

theorem escaping_ok : escaping r = .ok a ↔ r = .ok a := by
  cases r <;> simp [escaping]

end

/-! ## Integers -/

theorem isDigit_iff {c : CodePoint} : isDigit c = true ↔ 48 ≤ c.val ∧ c.val ≤ 57 := by
  show (decide (48 ≤ c.val) && decide (c.val ≤ 57)) = true ↔ _
  rw [Bool.and_eq_true, decide_eq_true_eq, decide_eq_true_eq]

theorem isWhite_of_isDigit {c : CodePoint} (h : isDigit c = true) : isWhite c = false := by
  rw [isDigit_iff] at h
  show (decide (c.val = 32) || decide (9 ≤ c.val) && decide (c.val ≤ 13)) = false
  simp only [Bool.or_eq_false_iff, Bool.and_eq_false_iff, decide_eq_false_iff_not]
  omega

theorem ne_of_isDigit {c : CodePoint} {n : ℕ} (h : isDigit c = true) (hn : n < 48 ∨ 57 < n)
    (hlt : n < 0x110000) : c ≠ Fin.ofNat _ n := by
  rintro rfl
  rw [isDigit_iff, Fin.val_ofNat, Nat.mod_eq_of_lt hlt] at h
  omega

theorem strip_of_digits {t : Text} (h : ∀ c ∈ t, isDigit c = true) : strip t = t := by
  have hdrop : t.dropWhile isWhite = t := by
    refine List.dropWhile_eq_self_iff.2 fun hlen => ?_
    rw [isWhite_of_isDigit (h _ (List.getElem_mem hlen))]
    exact Bool.false_ne_true
  unfold strip
  rw [hdrop, List.rdropWhile_eq_self_iff]
  intro hl
  rw [isWhite_of_isDigit (h _ (List.getLast_mem hl))]
  exact Bool.false_ne_true

theorem digitsOf_of_digits {t : Text} (hne : t ≠ []) (h : ∀ c ∈ t, isDigit c = true) :
    digitsOf t = some t := by
  fun_induction digitsOf t with
  | case1 => exact absurd rfl hne
  | case2 c hc => rfl
  | case3 c hc => exact absurd (h c List.mem_cons_self) hc
  | case4 c s hc ih =>
    have hunder := h underscore (List.mem_cons_of_mem c List.mem_cons_self)
    exact absurd rfl (ne_of_isDigit hunder (n := '_'.toNat) (by decide) (by decide))
  | case5 c d s hc hd ih =>
    rw [ih (List.cons_ne_nil d s) fun x hx => h x (List.mem_cons_of_mem c hx)]
    rfl
  | case6 c d s hc => exact absurd (h c List.mem_cons_self) hc

section

variable [UnicodeData] {t : Text}

theorem asAscii_of_isDigit {c : CodePoint} (h : isDigit c = true) : asAscii c = c := by
  rw [isDigit_iff] at h
  exact if_pos (by omega)

/-- `int` reads an index of RFC 6901 as RFC 6901 does, up to the limit on its digits. -/
theorem int_of_isIndex (h : isIndex t = true) : int t =
    if maxStrDigits < t.length then .error (.tooManyDigits t.length) else .ok t.number := by
  obtain ⟨hne, hdigits⟩ := digits_of_isIndex h
  have hmap : t.map asAscii = t := by
    conv_rhs => rw [← List.map_id t]
    exact List.map_congr_left fun c hc => asAscii_of_isDigit (hdigits c hc)
  have htake : (t.takeWhile fun c => isDigit c || c = underscore) = t := by
    refine List.takeWhile_eq_self_iff.2 fun c hc => ?_
    rw [hdigits c hc, Bool.true_or]
  have hmagnitude : magnitude t t = if maxStrDigits < t.length then .error (.tooManyDigits t.length)
      else .ok t.number := by
    unfold magnitude
    simp only [htake, digitsOf_of_digits hne hdigits, if_true]
  unfold int
  rw [hmap, strip_of_digits hdigits]
  obtain ⟨c, s, rfl⟩ := List.exists_cons_of_ne_nil hne
  have hc := hdigits c List.mem_cons_self
  simp only [if_neg (ne_of_isDigit hc (n := '-'.toNat) (by decide) (by decide)), dash,
    if_neg (ne_of_isDigit hc (n := '+'.toNat) (by decide) (by decide)), hmagnitude]
  split_ifs
  · rfl
  · rfl

/-- Below 2⁶³ an index has few digits. -/
theorem int_of_index {i : ℕ} (h : index t = some i) (hlt : i < 2 ^ 63) : int t = .ok i := by
  obtain ⟨hindex, rfl⟩ := isIndex_of_index h
  rw [int_of_isIndex hindex, if_neg]
  intro hlen
  have hone : 1 < t.length := lt_trans (by decide) hlen
  have hpow : 10 ^ 19 ≤ 10 ^ (t.length - 1) :=
    Nat.pow_le_pow_right (by decide) (by unfold maxStrDigits at hlen; omega)
  have hle := hpow.trans (pow_le_number hindex hone)
  have hbig : 2 ^ 63 ≤ 10 ^ 19 := by decide
  omega

theorem eq_number_of_int {i : ℤ} (h : isIndex t = true) (hi : int t = .ok i) : i = t.number := by
  rw [int_of_isIndex h] at hi
  split_ifs at hi
  exact (Except.ok.inj hi).symm

end

/-! ## Subscripts -/

theorem listIndex_ok {n : ℕ} {i : ℤ} {message : String} {j : Fin n}
    (h : listIndex n i message = .ok j) (hi : 0 ≤ i) : (j.val : ℤ) = i := by
  unfold listIndex at h
  split_ifs at h with hsize hrange
  · have hj : (fromEnd n i).toNat = j.val := congrArg Fin.val (Except.ok.inj h)
    unfold fromEnd at hj
    rw [if_neg (not_lt.2 hi)] at hj
    omega

theorem listIndex_congr {n : ℕ} {i : ℤ} {message : String} {j : Fin n}
    (h : listIndex n i message = .ok j) (message' : String) : listIndex n i message' = .ok j := by
  unfold listIndex at h ⊢
  split_ifs at h ⊢
  · exact h

theorem listIndex_error {n : ℕ} {i : ℤ} {message : String} {e : Raised}
    (h : listIndex n i message = .error e) : e.caught = true := by
  unfold listIndex at h
  split_ifs at h
  · exact Except.error.inj h ▸ rfl
  · exact Except.error.inj h ▸ rfl

theorem magnitude_error {token s : Text} {e : Raised} (h : magnitude token s = .error e) :
    e.caught = true := by
  unfold magnitude at h
  simp only at h
  split at h
  · exact Except.error.inj h ▸ rfl
  · split_ifs at h
    · exact Except.error.inj h ▸ rfl
    · exact Except.error.inj h ▸ rfl

theorem except_map_error {α β : Type} {f : α → β} {r : Except Raised α} {e : Raised}
    (h : r.map f = .error e) : r = .error e := by
  cases r with
  | error _ => exact congrArg Except.error (Except.error.inj h)
  | ok _ => cases h

theorem numbered_of_position {node : Value Text} {t : Text} {p : Position}
    (h : position node t = some p) : Numbered node t := by
  rintro l rfl
  obtain ⟨i, hi, -⟩ := Option.map_eq_some_iff.1 h
  exact (isIndex_of_index hi).1

theorem numbered_of_erase {node w : Value Text} {t : Text}
    (h : eraseChild node t = some w) : Numbered node t := by
  rintro l rfl
  obtain ⟨i, hi, -⟩ := Option.bind_eq_some_iff.1 h
  exact (isIndex_of_index hi).1

section

variable [UnicodeData] {node v w x n : Value Text} {t last : Text} {ts : List Text} {p : Position}
  {ps : List Position} {e : Raised}

/-- `int` raises nothing but `ValueError`. -/
theorem int_error (h : int t = .error e) : e.caught = true := by
  unfold int at h
  split at h
  · exact Except.error.inj h ▸ rfl
  · split_ifs at h
    · exact magnitude_error (except_map_error h)
    · exact magnitude_error (except_map_error h)
    · exact magnitude_error (except_map_error h)

/-- `_descend` catches whatever a subscript raises. -/
theorem subscript_error (h : subscript node t = .error e) : e.caught = true := by
  unfold subscript at h
  split at h
  · rcases except_bind_error.1 h with h | ⟨i, -, h⟩
    · exact int_error h
    · rcases except_bind_error.1 h with h | ⟨j, -, h⟩
      · exact listIndex_error h
      · cases h
  · split at h
    · cases h
    · exact Except.error.inj h ▸ rfl
  · exact Except.error.inj h ▸ rfl

theorem walk_error (h : walk v ts = .error e) : e.caught = true := by
  induction ts generalizing v with
  | nil => cases h
  | cons t ts ih =>
    rcases except_bind_error.1 h with h | ⟨⟨p, x⟩, -, h⟩
    · exact subscript_error h
    · rcases except_bind_error.1 h with h | ⟨⟨ps, n⟩, -, h⟩
      · exact ih h
      · cases h

/-- With an index of RFC 6901, a subscript finds what it names. -/
theorem position_of_subscript (h : subscript node t = .ok (p, x)) (hnum : Numbered node t) :
    position node t = some p ∧ child node p = some x := by
  unfold subscript at h
  split at h
  · rename_i l
    have hindex := hnum l rfl
    obtain ⟨i, hi, h⟩ := except_bind_ok.1 h
    obtain ⟨j, hj, h⟩ := except_bind_ok.1 h
    obtain ⟨rfl, rfl⟩ := Prod.mk.inj (Except.ok.inj h)
    have hval := eq_number_of_int hindex hi
    have hjval : j.val = t.number := by
      have := listIndex_ok hj (by omega)
      omega
    constructor
    · show (index t).map Position.item = _
      rw [index_of_isIndex hindex, Option.map_some, hjval]
    · show l[j.val]? = _
      exact List.getElem?_eq_getElem j.isLt
  · split at h
    · rename_i hget
      obtain ⟨rfl, rfl⟩ := Prod.mk.inj (Except.ok.inj h)
      exact ⟨rfl, hget⟩
    · cases h
  · cases h

/-- Along indices of RFC 6901 the loop of `_descend` follows the tokens. -/
theorem route_of_walk (h : walk v ts = .ok (ps, n)) (hnum : NumberedAlong v ts) :
    Route v ts ps n := by
  induction ts generalizing v ps with
  | nil =>
    obtain ⟨rfl, rfl⟩ := Prod.mk.inj (Except.ok.inj h)
    exact .here v
  | cons t ts ih =>
    obtain ⟨⟨p, x⟩, hsub, h⟩ := except_bind_ok.1 h
    obtain ⟨⟨qs, n'⟩, hwalk, h⟩ := except_bind_ok.1 h
    obtain ⟨rfl, rfl⟩ := Prod.mk.inj (Except.ok.inj h)
    obtain ⟨hp, hx⟩ := position_of_subscript hsub hnum.1
    exact .step hp hx (ih hwalk (hnum.2 p x hsub))

/-- Where the tokens can be followed at all, the loop follows them. -/
theorem walk_of_route (hroute : Route v ts ps n) {ps' : List Position} {n' : Value Text}
    (h : walk v ts = .ok (ps', n')) : NumberedAlong v ts ∧ n' = n := by
  induction hroute generalizing ps' with
  | here v =>
    obtain ⟨rfl, rfl⟩ := Prod.mk.inj (Except.ok.inj h)
    exact ⟨trivial, rfl⟩
  | @step v x n t ts p ps hp hx hroute ih =>
    obtain ⟨⟨q, y⟩, hsub, h⟩ := except_bind_ok.1 h
    obtain ⟨⟨qs, n''⟩, hwalk, h⟩ := except_bind_ok.1 h
    obtain ⟨rfl, rfl⟩ := Prod.mk.inj (Except.ok.inj h)
    have hnum := numbered_of_position hp
    have hfound : ∀ q y, subscript v t = .ok (q, y) → y = x := by
      intro q y hsub
      obtain ⟨hq, hy⟩ := position_of_subscript hsub hnum
      rw [hp] at hq
      rw [← Option.some.inj hq, hx] at hy
      exact (Option.some.inj hy).symm
    obtain rfl := hfound q y hsub
    obtain ⟨halong, rfl⟩ := ih hwalk
    exact ⟨⟨hnum, fun q' y' h' => hfound q' y' h' ▸ halong⟩, rfl⟩

/-! ## Containers -/

/-- Where RFC 6901 has a place, the value is put there. -/
theorem assign_of_place (h : HasPlace node t) :
    ∃ w, assign node t x = .ok w ∧ putChild node t x = some w := by
  cases node with
  | scalar s => exact h.elim
  | dict m => exact ⟨_, rfl, rfl⟩
  | list l =>
    by_cases hdash : t = [dash]
    · exact ⟨.list (l ++ [x]), if_pos hdash, if_pos hdash⟩
    · obtain ⟨i, hi, hle, hlt⟩ := h.resolve_left hdash
      have hint := int_of_index hi hlt
      have hsize : IsSsize i := ⟨by omega, by omega⟩
      have hplace : (min (max (fromEnd l.length i) 0) l.length).toNat = i := by
        unfold fromEnd
        rw [if_neg (by omega)]
        omega
      refine ⟨.list (l.insertIdx i x), ?_, ?_⟩
      · show (if t = [dash] then _ else _) = _
        rw [if_neg hdash]
        have hinsert : insert l i x = .ok (l.insertIdx i x) := by
          rw [insert, if_pos hsize, hplace]
        exact except_bind_ok.2 ⟨i, hint, except_bind_ok.2 ⟨_, hinsert, rfl⟩⟩
      · show (if t = [dash] then _ else _) = _
        rw [if_neg hdash, hi, Option.bind_some, if_pos hle]

/-- What RFC 6901 puts and Python assigns has a place. -/
theorem place_of_assign (hassign : assign node t x = .ok w) (h : putChild node t x = some v) :
    HasPlace node t := by
  cases node with
  | scalar s => cases h
  | dict m => trivial
  | list l =>
    by_cases hdash : t = [dash]
    · exact .inl hdash
    · replace h : (if t = [dash] then _ else _) = _ := h
      rw [if_neg hdash] at h
      obtain ⟨i, hi, h⟩ := Option.bind_eq_some_iff.1 h
      obtain ⟨hindex, hnumber⟩ := isIndex_of_index hi
      split_ifs at h with hle
      · replace hassign : (if t = [dash] then _ else _) = _ := hassign
        rw [if_neg hdash] at hassign
        obtain ⟨j, hj, hassign⟩ := except_bind_ok.1 hassign
        obtain ⟨l', hl', -⟩ := except_bind_ok.1 hassign
        unfold insert at hl'
        split_ifs at hl' with hsize
        have hval := eq_number_of_int hindex hj
        have hlt := hsize.2
        exact .inr ⟨i, hi, hle, by omega⟩

/-- The item or the member is there exactly when it can be deleted. -/
theorem delete_iff : (∃ w, delete node t = .ok w) ↔ ∃ r, subscript node t = .ok r := by
  cases node with
  | scalar s => simp [delete, subscript]
  | dict m => cases hget : Members.get? m t <;> simp [delete, subscript, hget]
  | list l =>
    constructor
    · rintro ⟨w, h⟩
      obtain ⟨i, hi, h⟩ := except_bind_ok.1 h
      obtain ⟨j, hj, -⟩ := except_bind_ok.1 h
      exact ⟨_, except_bind_ok.2 ⟨i, hi, except_bind_ok.2 ⟨j, listIndex_congr hj _, rfl⟩⟩⟩
    · rintro ⟨r, h⟩
      obtain ⟨i, hi, h⟩ := except_bind_ok.1 h
      obtain ⟨j, hj, -⟩ := except_bind_ok.1 h
      exact ⟨_, except_bind_ok.2 ⟨i, hi, except_bind_ok.2 ⟨j, listIndex_congr hj _, rfl⟩⟩⟩

theorem delete_error (h : delete node t = .error e) : e.caught = true := by
  unfold delete at h
  split at h
  · rcases except_bind_error.1 h with h | ⟨i, -, h⟩
    · exact int_error h
    · rcases except_bind_error.1 h with h | ⟨j, -, h⟩
      · exact listIndex_error h
      · cases h
  · split_ifs at h
    exact Except.error.inj h ▸ rfl
  · exact Except.error.inj h ▸ rfl

/-- With an index of RFC 6901, what it names is erased. -/
theorem erase_of_delete (h : delete node t = .ok w) (hnum : Numbered node t) :
    eraseChild node t = some w := by
  cases node with
  | scalar s => cases h
  | dict m =>
    unfold delete at h
    simp only at h
    split_ifs at h with hget
    rw [← Except.ok.inj h]
    exact if_pos hget
  | list l =>
    have hindex := hnum l rfl
    obtain ⟨i, hi, h⟩ := except_bind_ok.1 h
    obtain ⟨j, hj, h⟩ := except_bind_ok.1 h
    have hval := eq_number_of_int hindex hi
    have hjval : j.val = t.number := by
      have := listIndex_ok hj (by omega)
      omega
    show (index t).bind _ = _
    rw [index_of_isIndex hindex, Option.bind_some, ← hjval, if_pos j.isLt]
    exact congrArg some (Except.ok.inj h)

/-! ## Pointers -/

variable {pointer : Text} {found : Found} {exc : MutationException}

/-- What `_descend` returns: the last token, and the container that the others lead to. -/
theorem descend_ok (h : descend v pointer = .ok found) :
    ¬(pointer ≠ [] ∧ pointer.head? ≠ some slash) ∧
      ∃ ts, (rawTokens pointer).map unescape = ts ++ [found.last] ∧
        walk v ts = .ok (found.path, found.node) := by
  unfold descend at h
  split_ifs at h with hslash
  refine ⟨hslash, ?_⟩
  simp only at h
  split at h
  · cases h
  · rename_i last hlast
    obtain ⟨⟨ps, n⟩, hwalk, h⟩ := except_bind_ok.1 h
    have hfound := Except.ok.inj h
    subst hfound
    refine ⟨_, (List.dropLast_append_getLast? last hlast).symm, ?_⟩
    exact catching_ok.1 hwalk

theorem descend_error (h : descend v pointer = .error exc) :
    ∃ message, exc = .mutationError message := by
  unfold descend at h
  split_ifs at h with hslash
  · exact ⟨_, (Except.error.inj h).symm⟩
  · simp only at h
    split at h
    · exact ⟨_, (Except.error.inj h).symm⟩
    · rcases except_bind_error.1 h with h | ⟨r, -, h⟩
      · exact catching_error h fun e he => walk_error he
      · cases h

theorem read_ok : read v pointer = .ok x ↔
    ∃ found p, descend v pointer = .ok found ∧ subscript found.node found.last = .ok (p, x) := by
  constructor
  · intro h
    obtain ⟨found, hfound, h⟩ := except_bind_ok.1 h
    obtain ⟨⟨p, y⟩, hsub, h⟩ := except_bind_ok.1 h
    obtain rfl := Except.ok.inj h
    exact ⟨found, p, hfound, catching_ok.1 hsub⟩
  · rintro ⟨found, p, hfound, hsub⟩
    exact except_bind_ok.2 ⟨found, hfound, except_bind_ok.2 ⟨(p, x), catching_ok.2 hsub, rfl⟩⟩

theorem read_error (h : read v pointer = .error exc) : ∃ message, exc = .mutationError message := by
  rcases except_bind_error.1 h with h | ⟨found, -, h⟩
  · exact descend_error h
  · rcases except_bind_error.1 h with h | ⟨r, -, h⟩
    · exact catching_error h fun e he => subscript_error he
    · cases h

theorem numberedAlong_concat (h : walk v ts = .ok (ps, n)) :
    NumberedAlong v (ts ++ [t]) ↔ NumberedAlong v ts ∧ Numbered n t := by
  induction ts generalizing v ps with
  | nil =>
    obtain ⟨rfl, rfl⟩ := Prod.mk.inj (Except.ok.inj h)
    exact ⟨fun h => ⟨trivial, h.1⟩, fun h => ⟨h.2, fun _ _ _ => trivial⟩⟩
  | cons u ts ih =>
    obtain ⟨⟨p, x⟩, hsub, h⟩ := except_bind_ok.1 h
    obtain ⟨⟨qs, n'⟩, hwalk, h⟩ := except_bind_ok.1 h
    obtain ⟨rfl, rfl⟩ := Prod.mk.inj (Except.ok.inj h)
    have hrest : ∀ p' x', subscript v u = .ok (p', x') → x' = x := by
      intro p' x' hsub'
      rw [hsub] at hsub'
      exact (Prod.mk.inj (Except.ok.inj hsub')).2.symm
    constructor
    · rintro ⟨hu, halong⟩
      obtain ⟨hts, ht⟩ := (ih hwalk).1 (halong p x hsub)
      exact ⟨⟨hu, fun p' x' h' => hrest p' x' h' ▸ hts⟩, ht⟩
    · rintro ⟨⟨hu, halong⟩, ht⟩
      exact ⟨hu, fun p' x' h' => hrest p' x' h' ▸ (ih hwalk).2 ⟨halong p x hsub, ht⟩⟩

/-! ## One mutation -/

variable {f : Value Text → Text → Option (Value Text)} {m : Mutation} {ms : List Mutation}

/-- Along indices of RFC 6901 the container that `_descend` returns is the one that is edited. -/
theorem edit_along (h : descend v pointer = .ok found)
    (hwell : (rawTokens pointer).all wellFormed = true)
    (halong : NumberedAlong v ((rawTokens pointer).map unescape).dropLast) :
    (tokens pointer).bind (edit f v) = (f found.node found.last).map (replace v found.path) := by
  obtain ⟨hslash, ts, hts, hwalk⟩ := descend_ok h
  rw [hts, List.dropLast_concat] at halong
  rw [tokens_eq hslash, if_pos hwell, Option.bind_some, hts]
  exact (route_of_walk hwalk halong).edit_concat

theorem along_of_edit (h : descend v pointer = .ok found)
    (hedit : (tokens pointer).bind (edit f v) = some w) :
    (rawTokens pointer).all wellFormed = true ∧
      NumberedAlong v ((rawTokens pointer).map unescape).dropLast ∧
      ∃ y, f found.node found.last = some y := by
  obtain ⟨hslash, ts, hts, hwalk⟩ := descend_ok h
  rw [tokens_eq hslash] at hedit
  obtain ⟨us, hus, hedit⟩ := Option.bind_eq_some_iff.1 hedit
  split_ifs at hus with hwell
  rw [← Option.some.inj hus, hts] at hedit
  obtain ⟨ps, n, y, hroute, hy⟩ := route_of_edit hedit
  obtain ⟨halong, hnode⟩ := walk_of_route hroute hwalk
  rw [hts, List.dropLast_concat, hnode]
  exact ⟨hwell, halong, y, hy⟩

theorem names_iff (h : descend v pointer = .ok found) : Names v pointer ↔
    (rawTokens pointer).all wellFormed = true ∧
      NumberedAlong v ((rawTokens pointer).map unescape).dropLast ∧
      Numbered found.node found.last := by
  obtain ⟨-, ts, hts, hwalk⟩ := descend_ok h
  unfold Names
  rw [hts, List.dropLast_concat, numberedAlong_concat hwalk]

/-- By the letter of RFC 6901, what `_read` returns is what the pointer names. -/
theorem follow_of_read (h : read v pointer = .ok x) (hnames : Names v pointer) :
    (tokens pointer).bind (follow v) = some x := by
  obtain ⟨found, p, hfound, hsub⟩ := read_ok.1 h
  obtain ⟨hwell, halong, hnum⟩ := (names_iff hfound).1 hnames
  obtain ⟨hslash, ts, hts, hwalk⟩ := descend_ok hfound
  rw [hts, List.dropLast_concat] at halong
  obtain ⟨hp, hx⟩ := position_of_subscript hsub hnum
  rw [tokens_eq hslash, if_pos hwell, Option.bind_some, hts,
    (route_of_walk hwalk halong).follow_concat, follow, hp, Option.bind_some, hx]
  rfl

theorem names_of_follow (h : read v pointer = .ok x)
    (hfollow : (tokens pointer).bind (follow v) = some w) : Names v pointer := by
  obtain ⟨found, p, hfound, hsub⟩ := read_ok.1 h
  obtain ⟨hslash, ts, hts, hwalk⟩ := descend_ok hfound
  rw [tokens_eq hslash] at hfollow
  obtain ⟨us, hus, hfollow⟩ := Option.bind_eq_some_iff.1 hfollow
  split_ifs at hus with hwell
  rw [← Option.some.inj hus, hts] at hfollow
  obtain ⟨ps, n, hroute, hlast⟩ := route_of_follow hfollow
  obtain ⟨halong, hnode⟩ := walk_of_route hroute hwalk
  obtain ⟨q, hq, -⟩ := Option.bind_eq_some_iff.1 hlast
  refine (names_iff hfound).2 ⟨hwell, ?_, ?_⟩
  · rw [hts, List.dropLast_concat]
    exact halong
  · rw [hnode]
    exact numbered_of_position hq

/-- A value put where `_descend` ends. -/
theorem put_of_place (h : descend v pointer = .ok found) (hplace : NamesPlace v pointer)
    (hassign : assign found.node found.last x = .ok w) :
    (tokens pointer).bind (edit (putChild · · x) v) = some (replace v found.path w) := by
  obtain ⟨hwell, halong, hhas⟩ := hplace
  obtain ⟨y, hy, hput⟩ := assign_of_place (x := x) (hhas found h)
  rw [hassign] at hy
  rw [edit_along h hwell halong, hput, Except.ok.inj hy]
  rfl

theorem place_of_put (h : descend v pointer = .ok found)
    (hassign : assign found.node found.last x = .ok w)
    (hput : (tokens pointer).bind (edit (putChild · · x) v) = some n) : NamesPlace v pointer := by
  obtain ⟨hwell, halong, y, hy⟩ := along_of_edit h hput
  refine ⟨hwell, halong, fun found' h' => ?_⟩
  rw [h] at h'
  rw [← Except.ok.inj h']
  exact place_of_assign hassign hy

/-- What a mutation that succeeds has done. -/
theorem edited_of_conforms (h : mutate v m = .ok w) (hm : Conforms v m) : edited v m = some w := by
  obtain ⟨found, hfound, h⟩ := except_bind_ok.1 h
  cases m with
  | set path value =>
    obtain ⟨y, hy, h⟩ := except_bind_ok.1 h
    rw [← Except.ok.inj h]
    exact put_of_place hfound hm (escaping_ok.1 hy)
  | remove path =>
    obtain ⟨y, hy, h⟩ := except_bind_ok.1 h
    obtain ⟨hwell, halong, hnum⟩ := (names_iff hfound).1 hm
    rw [← Except.ok.inj h]
    refine (edit_along hfound hwell halong).trans ?_
    rw [erase_of_delete (catching_ok.1 hy) hnum]
    rfl
  | copy path source =>
    obtain ⟨value, hvalue, h⟩ := except_bind_ok.1 h
    obtain ⟨y, hy, h⟩ := except_bind_ok.1 h
    rw [← Except.ok.inj h]
    show ((tokens source).bind _).bind _ = _
    rw [follow_of_read hvalue hm.2, Option.bind_some]
    exact put_of_place hfound hm.1 (escaping_ok.1 hy)
  | other kind path => cases h

/-- A mutation that succeeds although RFC 6901 makes nothing of it does not conform. -/
theorem conforms_of_edited (h : mutate v m = .ok w) (hedited : edited v m = some n) :
    Conforms v m := by
  obtain ⟨found, hfound, h⟩ := except_bind_ok.1 h
  cases m with
  | set path value =>
    obtain ⟨y, hy, -⟩ := except_bind_ok.1 h
    exact place_of_put hfound (escaping_ok.1 hy) hedited
  | remove path =>
    obtain ⟨hwell, halong, y, hy⟩ := along_of_edit hfound hedited
    exact (names_iff hfound).2 ⟨hwell, halong, numbered_of_erase hy⟩
  | copy path source =>
    obtain ⟨value, hvalue, h⟩ := except_bind_ok.1 h
    obtain ⟨y, hy, -⟩ := except_bind_ok.1 h
    obtain ⟨x, hx, hput⟩ := Option.bind_eq_some_iff.1 hedited
    have hnames := names_of_follow hvalue hx
    rw [follow_of_read hvalue hnames] at hx
    obtain rfl := Option.some.inj hx
    exact ⟨place_of_put hfound (escaping_ok.1 hy) hput, hnames⟩
  | other kind path => cases h

theorem mutate_eq (h : descend v m.path = .ok found) : mutate v m = change v found m := by
  rw [mutate, h]
  rfl

/-- A mutation is refused with a `MutationError`. -/
theorem refused_iff :
    Refused v m ↔ ∃ message, mutate v m = .error (.mutationError message) := by
  rcases except_cases (descend v m.path) with ⟨found, hfound⟩ | ⟨exc, herror⟩
  · have hdescend : ¬∀ found, descend v m.path ≠ .ok found := fun h => h found hfound
    rw [mutate_eq hfound]
    refine (or_iff_right hdescend).trans ?_
    cases m with
    | set path value =>
      refine ⟨False.elim, fun ⟨message, h⟩ => ?_⟩
      rcases except_bind_error.1 h with h | ⟨y, -, h⟩
      · obtain ⟨e, -, heq⟩ := escaping_error h
        cases heq
      · cases h
    | remove path =>
      have hread : (∀ x, read v path ≠ .ok x) ↔ ¬∃ y, delete found.node found.last = .ok y := by
        rw [delete_iff, not_exists]
        constructor
        · rintro h ⟨p, x⟩ hsub
          exact h x (read_ok.2 ⟨found, p, hfound, hsub⟩)
        · intro h x hx
          obtain ⟨found', p, hfound', hsub⟩ := read_ok.1 hx
          obtain rfl := Except.ok.inj (hfound.symm.trans hfound')
          exact h (p, x) hsub
      refine hread.trans ⟨fun h => ?_, ?_⟩
      · rcases except_cases (delete found.node found.last) with hy | ⟨e, he⟩
        · exact absurd hy h
        · obtain ⟨message, hmessage⟩ := catching_refuses [.text "remove at ", .repr path] he
            (delete_error he)
          exact ⟨message, except_bind_error.2 (.inl hmessage)⟩
      · rintro ⟨message, h⟩ ⟨y, hy⟩
        rcases except_bind_error.1 h with h | ⟨z, -, h⟩
        · rw [catching_ok.2 hy] at h
          cases h
        · cases h
    | copy path source =>
      constructor
      · intro h
        rcases except_cases (read v source) with ⟨x, hx⟩ | ⟨exc, he⟩
        · exact absurd hx (h x)
        · obtain ⟨message, rfl⟩ := read_error he
          exact ⟨message, except_bind_error.2 (.inl he)⟩
      · rintro ⟨message, h⟩ x hx
        rcases except_bind_error.1 h with h | ⟨y, -, h⟩
        · rw [hx] at h
          cases h
        · rcases except_bind_error.1 h with h | ⟨z, -, h⟩
          · obtain ⟨e, -, heq⟩ := escaping_error h
            cases heq
          · cases h
    | other kind path => exact ⟨fun _ => ⟨_, rfl⟩, fun _ => trivial⟩
  · obtain ⟨message, rfl⟩ := descend_error herror
    have hmutate : mutate v m = .error (.mutationError message) := by
      rw [mutate, herror]
      rfl
    refine ⟨fun _ => ⟨message, hmutate⟩, fun _ => .inl fun found h => ?_⟩
    rw [herror] at h
    cases h

/-- What conforms and is not refused succeeds. -/
theorem mutate_of_conforms (hm : Conforms v m) (h : ¬Refused v m) : ∃ w, mutate v m = .ok w := by
  rcases except_cases (descend v m.path) with ⟨found, hfound⟩ | ⟨exc, herror⟩
  · rw [mutate_eq hfound]
    cases m with
    | set path value =>
      obtain ⟨y, hy, -⟩ := assign_of_place (x := value) (hm.2.2 found hfound)
      exact ⟨_, except_bind_ok.2 ⟨y, escaping_ok.2 hy, rfl⟩⟩
    | remove path =>
      rcases except_cases (read v path) with ⟨x, hx⟩ | ⟨exc, he⟩
      · obtain ⟨found', p, hfound', hsub⟩ := read_ok.1 hx
        obtain rfl := Except.ok.inj (hfound.symm.trans hfound')
        obtain ⟨y, hy⟩ := delete_iff.2 ⟨_, hsub⟩
        exact ⟨_, except_bind_ok.2 ⟨y, catching_ok.2 hy, rfl⟩⟩
      · exact absurd (.inr fun x hx => by rw [he] at hx; cases hx) h
    | copy path source =>
      rcases except_cases (read v source) with ⟨x, hx⟩ | ⟨exc, he⟩
      · obtain ⟨y, hy, -⟩ := assign_of_place (x := x) (hm.1.2.2 found hfound)
        exact ⟨_, except_bind_ok.2 ⟨x, hx, except_bind_ok.2 ⟨y, escaping_ok.2 hy, rfl⟩⟩⟩
      · exact absurd (.inr fun x hx => by rw [he] at hx; cases hx) h
    | other kind path => exact absurd (.inr trivial) h
  · refine absurd (.inl fun found hfound => ?_) h
    rw [herror] at hfound
    cases hfound

/-! ## A list of mutations -/

theorem keeps_base_applyMutations : Prog.Keeps Documents.base (applyMutations ms) := by
  refine .bind (fun _ => rfl) fun _ => .bind (.forEach (fun m => ?_) ms) fun _ => .gets _
  exact .bind (.gets _) fun document => .bind (.lift _) fun changed _ => rfl

/-- The loop is the fold of its body over the document. -/
theorem outcome_eq {s : Documents} :
    (applyMutations ms s).1 = ms.foldlM mutate s.base := by
  have hloop : ∀ s : Documents, ((Prog.forEach applyMutation ms >>= fun _ =>
      Prog.gets Documents.document) s).1 = ms.foldlM mutate s.document := by
    induction ms with
    | nil => exact fun _ => rfl
    | cons m ms ih =>
      intro s
      rw [Prog.forEach_cons, Prog.bind_bind, List.foldlM_cons, Prog.bind_run]
      cases h : mutate s.document m with
      | error exc =>
        have hrun : applyMutation m s = (.error exc, s) := by
          unfold applyMutation
          rw [Prog.gets_bind_run, Prog.bind_run, Prog.monadLift_run, h]
        rw [hrun]
        rfl
      | ok w =>
        have hrun : applyMutation m s = (.ok (), { s with document := w }) := by
          unfold applyMutation
          rw [Prog.gets_bind_run, Prog.bind_run, Prog.monadLift_run, h]
          rfl
        rw [hrun]
        exact ih _
  exact hloop { s with document := s.base }

/-- The call ends in a `MutationError` where a mutation on the way is refused. -/
theorem abandoned_iff :
    Abandoned v ms ↔ ∃ message, ms.foldlM mutate v = .error (.mutationError message) := by
  induction ms generalizing v with
  | nil =>
    constructor
    · rintro ⟨⟩
    · rintro ⟨message, ⟨⟩⟩
  | cons m ms ih =>
    rw [List.foldlM_cons]
    constructor
    · rintro (⟨_, h⟩ | ⟨h, hrest⟩)
      · obtain ⟨message, hmessage⟩ := refused_iff.1 h
        exact ⟨message, except_bind_error.2 (.inl hmessage)⟩
      · obtain ⟨message, hmessage⟩ := ih.1 hrest
        exact ⟨message, except_bind_error.2 (.inr ⟨_, h, hmessage⟩)⟩
    · rintro ⟨message, h⟩
      rcases except_bind_error.1 h with h | ⟨w, hw, h⟩
      · exact .here ms (refused_iff.2 ⟨message, h⟩)
      · exact .later hw (ih.2 ⟨message, h⟩)

/-- The call returns the named edits where every mutation conforms. -/
theorem allConform_iff : AllConform v ms ↔
    ∃ w, ms.foldlM mutate v = .ok w ∧ ms.foldlM edited v = some w := by
  induction ms generalizing v with
  | nil => exact ⟨fun _ => ⟨v, rfl, rfl⟩, fun _ => .nil v⟩
  | cons m ms ih =>
    rw [List.foldlM_cons, List.foldlM_cons]
    constructor
    · rintro (_ | ⟨hm, h, hrest⟩)
      obtain ⟨w, hw, hedited⟩ := ih.1 hrest
      exact ⟨w, except_bind_ok.2 ⟨_, h, hw⟩,
        Option.bind_eq_some_iff.2 ⟨_, edited_of_conforms h hm, hedited⟩⟩
    · rintro ⟨w, h, hedited⟩
      obtain ⟨x, hx, h⟩ := except_bind_ok.1 h
      obtain ⟨y, hy, hedited⟩ := Option.bind_eq_some_iff.1 hedited
      have hm := conforms_of_edited hx hy
      rw [edited_of_conforms hx hm] at hy
      obtain rfl := Option.some.inj hy
      exact .cons hm hx (ih.2 ⟨w, h, hedited⟩)

end

namespace Sample

/-- A database without spaces and digits beyond ASCII. -/
@[reducible] def ascii : UnicodeData := ⟨fun _ => false, fun _ => none⟩

/-- `{"s": "text", "xs": [1, 2]}`. -/
def base : Value Text := .dict [(.str "s", .str "text"), (.str "xs", .list [.int 1, .int 2])]

/-- A member is set in a text. -/
def throughScalar : List Mutation := [.set "/s/x" (.int 7)]

/-- An item is set far beyond the end of a list. -/
def beyondEnd : List Mutation := [.set "/xs/99" (.int 7)]

end Sample

end PaaRuntime.Mutations
