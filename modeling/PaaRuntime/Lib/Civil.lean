import Mathlib.Data.String.Basic
import Mathlib.Tactic.IntervalCases
import PaaRuntime.Lib.DateTime

/-!
# Civil times and their texts

A date-time in UTC, to the microsecond, written as `%Y-%m-%dT%H:%M:%S.%fZ`: numbers of a fixed width,
so that the texts are in the order of the instants that they name (`Civil.text_lt_iff`), each of which
is read back (`Civil.instant?_text`).
-/

namespace PaaRuntime

/-! ## Numbers of a fixed width -/

/-- The last `w` decimal digits of a number. -/
def fixedDigits : ℕ → ℕ → List Char
  | 0, _ => []
  | w + 1, n => fixedDigits w (n / 10) ++ [Nat.digitChar (n % 10)]

@[simp] theorem length_fixedDigits (w n : ℕ) : (fixedDigits w n).length = w := by
  induction w generalizing n with
  | zero => rfl
  | succ w ih => rw [fixedDigits, List.length_append, ih, List.length_singleton]

theorem digitChar_lt_iff : ∀ a < 10, ∀ b < 10, (Nat.digitChar a < Nat.digitChar b ↔ a < b) := by
  decide

/-- Of two texts the one is before the other if their heads of one length say so, or else their
tails. -/
theorem append_lt_append_iff {a b u v : List Char} (h : a.length = b.length) :
    a ++ u < b ++ v ↔ a < b ∨ a = b ∧ u < v := by
  induction a generalizing b with
  | nil =>
    obtain rfl := List.length_eq_zero_iff.1 h.symm
    simp
  | cons c a ih =>
    obtain ⟨d, b, rfl⟩ := List.exists_cons_of_length_eq_add_one h.symm
    have hlength : a.length = b.length := Nat.succ.inj h
    simp only [List.cons_append, List.cons_lt_cons_iff, ih hlength, List.cons.injEq]
    tauto

/-- Numbers of a fixed width are in the order of their texts. -/
theorem fixedDigits_lt_iff {w a b : ℕ} (ha : a < 10 ^ w) (hb : b < 10 ^ w) :
    (fixedDigits w a < fixedDigits w b ↔ a < b) ∧ (fixedDigits w a = fixedDigits w b ↔ a = b) := by
  induction w generalizing a b with
  | zero =>
    rw [pow_zero] at ha hb
    simp only [fixedDigits]
    constructor
    · simp
      omega
    · simp
      omega
  | succ w ih =>
    rw [pow_succ] at ha hb
    obtain ⟨hlt, heq⟩ := ih (a := a / 10) (b := b / 10) (by omega) (by omega)
    have hlast := digitChar_lt_iff (a % 10) (by omega) (b % 10) (by omega)
    have hlast' := digitChar_lt_iff (b % 10) (by omega) (a % 10) (by omega)
    have hchar : Nat.digitChar (a % 10) = Nat.digitChar (b % 10) ↔ a % 10 = b % 10 := by
      constructor
      · intro h
        rw [h] at hlast hlast'
        have hle := hlast.not.1 (lt_irrefl _)
        have hge := hlast'.not.1 (lt_irrefl _)
        omega
      · exact congrArg Nat.digitChar
    have hlength : (fixedDigits w (a / 10)).length = (fixedDigits w (b / 10)).length := by
      rw [length_fixedDigits, length_fixedDigits]
    constructor
    · rw [fixedDigits, fixedDigits, append_lt_append_iff hlength, hlt, heq, List.cons_lt_cons_iff,
        hlast]
      simp
      omega
    · rw [fixedDigits, fixedDigits]
      constructor
      · intro h
        obtain ⟨hfront, hback⟩ := List.append_inj h hlength
        have hdiv := heq.1 hfront
        have hmod := hchar.1 (List.cons.inj hback).1
        omega
      · rintro rfl
        rfl

/-- The digits of a text of a fixed width. -/
theorem exists_of_mem_fixedDigits {w n : ℕ} {c : Char} (hc : c ∈ fixedDigits w n) :
    ∃ k < 10, c = Nat.digitChar k := by
  induction w generalizing n with
  | zero => cases hc
  | succ w ih =>
    rw [fixedDigits, List.mem_append, List.mem_singleton] at hc
    rcases hc with hc | rfl
    · exact ih hc
    · exact ⟨n % 10, by omega, rfl⟩

/-! ## Days -/

namespace DateTime

theorem one_le_daysInMonth (y m : ℕ) : 1 ≤ daysInMonth y m := by
  unfold daysInMonth
  split_ifs <;> omega

/-- The number of a day goes by the first of its month. -/
theorem dayNumber_eq (y m d : ℕ) : dayNumber y m d + 1 = dayNumber y m 1 + d := by
  unfold dayNumber
  dsimp only
  push_cast
  omega

/-- The days are numbered on from one month to the next. -/
theorem dayNumber_month {y m : ℕ} (hm : 1 ≤ m) (hm' : m < 12) :
    dayNumber y m (daysInMonth y m) < dayNumber y (m + 1) 1 := by
  unfold dayNumber daysInMonth
  interval_cases m
  all_goals simp
  -- only February depends on the year
  split_ifs <;> omega

/-- The days are numbered on from one year to a later one. -/
theorem dayNumber_year {y y' : ℕ} (h : y < y') : dayNumber y 12 31 < dayNumber y' 1 1 := by
  unfold dayNumber
  simp
  omega

/-- The months of a year begin in their order. -/
theorem dayNumber_first_le {y m m' : ℕ} (hm : 1 ≤ m) (h : m ≤ m') (hm' : m' ≤ 12) :
    dayNumber y m 1 ≤ dayNumber y m' 1 := by
  induction m', h using Nat.le_induction with
  | base => exact le_rfl
  | succ k hk ih =>
    have hnext := dayNumber_month (y := y) (hm.trans hk) (by omega)
    have hlast := dayNumber_eq y k (daysInMonth y k)
    have hsome := one_le_daysInMonth y k
    have hfirst := ih (by omega)
    omega

/-- A day of the calendar. -/
def IsDay (y m d : ℕ) : Prop := 1 ≤ m ∧ m ≤ 12 ∧ 1 ≤ d ∧ d ≤ daysInMonth y m

instance decidableIsDay (y m d : ℕ) : Decidable (IsDay y m d) :=
  inferInstanceAs (Decidable (_ ∧ _ ∧ _ ∧ _))

/-- Days of the calendar are numbered in their order. -/
theorem dayNumber_lt {y m d y' m' d' : ℕ} (h : IsDay y m d) (h' : IsDay y' m' d')
    (hlt : y < y' ∨ y = y' ∧ (m < m' ∨ m = m' ∧ d < d')) :
    dayNumber y m d < dayNumber y' m' d' := by
  obtain ⟨hm, hm12, hd, hdays⟩ := h
  obtain ⟨hm', hm12', hd', hdays'⟩ := h'
  have hday := dayNumber_eq y m d
  have hday' := dayNumber_eq y' m' d'
  have hlast := dayNumber_eq y m (daysInMonth y m)
  rcases hlt with hyear | ⟨rfl, hmonth | ⟨rfl, hlt⟩⟩
  · have hdecember := dayNumber_eq y 12 31
    have hwithin : dayNumber y m d ≤ dayNumber y 12 31 := by
      rcases Nat.lt_or_eq_of_le hm12 with hlt | rfl
      · have hnext := dayNumber_month (y := y) hm hlt
        have hfirst := dayNumber_first_le (y := y) (m := m + 1) (by omega) hlt le_rfl
        omega
      · have hthirtyone : daysInMonth y 12 = 31 := rfl
        omega
    have hfirst := dayNumber_first_le (y := y') le_rfl hm' hm12'
    have hyears := dayNumber_year hyear
    omega
  · have hnext := dayNumber_month (y := y) hm (by omega)
    have hfirst := dayNumber_first_le (y := y) (m := m + 1) (by omega) hmonth hm12'
    omega
  · omega

end DateTime

/-! ## Texts in a language -/

section

open Pattern

variable {p q : Pattern} {u v : Text}

/-- The text of some characters. -/
def Text.ofChars (l : List Char) : Text := l.map fun c => Fin.ofNat _ c.toNat

@[simp] theorem Text.ofChars_append (l m : List Char) :
    Text.ofChars (l ++ m) = Text.ofChars l ++ Text.ofChars m := List.map_append

theorem fullmatch_mul (hu : fullmatch p u = true) (hv : fullmatch q v = true) :
    fullmatch (p * q) (u ++ v) = true := by
  rw [fullmatch, RegularExpression.rmatch_iff_matches'] at *
  exact Language.append_mem_mul hu hv

/-- The digits of a fixed width. -/
theorem matches_fixedDigits (w n : ℕ) :
    Text.ofChars (fixedDigits w n) ∈ DateTime.digit.matches' ^ w := by
  induction w generalizing n with
  | zero => exact Set.mem_singleton _
  | succ w ih =>
    have hdigit : ∀ k < 10, fullmatch DateTime.digit (Text.ofChars [Nat.digitChar k]) = true := by
      decide
    have hlast := hdigit (n % 10) (by omega)
    rw [fullmatch, RegularExpression.rmatch_iff_matches'] at hlast
    rw [fixedDigits, Text.ofChars_append, pow_succ]
    exact Language.append_mem_mul (ih (n / 10)) hlast

theorem fullmatch_fixedDigits (w n : ℕ) :
    fullmatch (DateTime.digit ^ w) (Text.ofChars (fixedDigits w n)) = true := by
  rw [fullmatch, RegularExpression.rmatch_iff_matches', RegularExpression.matches'_pow]
  exact matches_fixedDigits w n

theorem fullmatch_plus_fixedDigits (w n : ℕ) :
    fullmatch (plus DateTime.digit) (Text.ofChars (fixedDigits (w + 1) n)) = true := by
  rw [fullmatch, RegularExpression.rmatch_iff_matches', plus, RegularExpression.matches'_mul,
    RegularExpression.matches'_star]
  have hmem := matches_fixedDigits (w + 1) n
  rw [pow_succ'] at hmem
  obtain ⟨a, ha, b, hb, hab⟩ := Language.mem_mul.1 hmem
  exact hab ▸ Language.append_mem_mul ha ((pow_le_kstar : DateTime.digit.matches' ^ w ≤ _) hb)

end

/-! ## Civil times -/

/-- A date-time in UTC, to the microsecond, whose year has four digits. -/
structure Civil where
  year : ℕ
  month : ℕ
  day : ℕ
  hour : ℕ
  minute : ℕ
  second : ℕ
  microsecond : ℕ
  year_range : 1000 ≤ year ∧ year < 10000
  isDay : DateTime.IsDay year month day
  hour_lt : hour < 24
  minute_lt : minute < 60
  second_lt : second < 60
  microsecond_lt : microsecond < 1000000

namespace Civil

/-- The characters of the text. -/
def chars (t : Civil) : List Char :=
  fixedDigits 4 t.year ++ '-' :: (fixedDigits 2 t.month ++ '-' :: (fixedDigits 2 t.day ++ 'T' ::
    (fixedDigits 2 t.hour ++ ':' :: (fixedDigits 2 t.minute ++ ':' :: (fixedDigits 2 t.second ++
      '.' :: (fixedDigits 6 t.microsecond ++ ['Z']))))))

/-- `strftime("%Y-%m-%dT%H:%M:%S.%fZ")`. -/
def text (t : Civil) : String := String.ofList t.chars

/-- The seconds of the instant, but for the fraction. -/
def seconds (t : Civil) : ℤ :=
  DateTime.dayNumber t.year t.month t.day * 86400 + t.hour * 3600 + t.minute * 60 + t.second

/-- The instant. -/
def instant (t : Civil) : ℚ := t.seconds + t.microsecond / 10 ^ 6

variable {t t' : Civil}

theorem day_lt (t : Civil) : t.day < 100 := by
  have hdays := t.isDay.2.2.2
  unfold DateTime.daysInMonth at hdays
  split_ifs at hdays <;> omega

/-- An instant in microseconds. -/
theorem instant_eq (t : Civil) :
    t.instant = ((t.seconds * 10 ^ 6 + t.microsecond : ℤ) : ℚ) / 10 ^ 6 := by
  unfold instant
  rw [Int.cast_add, Int.cast_mul, add_div, Int.cast_pow, Int.cast_natCast]
  congr 1
  exact (mul_div_cancel_right₀ _ (by norm_num)).symm

theorem instant_lt_iff : t.instant < t'.instant ↔ t.seconds * 10 ^ 6 + t.microsecond <
    t'.seconds * 10 ^ 6 + t'.microsecond := by
  rw [instant_eq, instant_eq, div_lt_div_iff_of_pos_right (by norm_num), Int.cast_lt]

/-- A character between numbers of a fixed width tells neither text from the other. -/
theorem append_cons_lt_iff {a b u v : List Char} {c : Char} (h : a.length = b.length) :
    a ++ c :: u < b ++ c :: v ↔ a < b ∨ a = b ∧ u < v := by
  rw [append_lt_append_iff h, List.cons_lt_cons_iff]
  simp

/-- The texts are in the order of their fields. -/
theorem chars_lt_iff : t.chars < t'.chars ↔
    t.year < t'.year ∨ t.year = t'.year ∧ (t.month < t'.month ∨ t.month = t'.month ∧
      (t.day < t'.day ∨ t.day = t'.day ∧ (t.hour < t'.hour ∨ t.hour = t'.hour ∧
        (t.minute < t'.minute ∨ t.minute = t'.minute ∧ (t.second < t'.second ∨
          t.second = t'.second ∧ t.microsecond < t'.microsecond))))) := by
  have hyear := fixedDigits_lt_iff (w := 4) t.year_range.2 t'.year_range.2
  have hmonth := fixedDigits_lt_iff (w := 2) (a := t.month) (b := t'.month)
    (by have := t.isDay.2.1; omega) (by have := t'.isDay.2.1; omega)
  have hday := fixedDigits_lt_iff (w := 2) t.day_lt t'.day_lt
  have hhour := fixedDigits_lt_iff (w := 2) (a := t.hour) (b := t'.hour)
    (by have := t.hour_lt; omega) (by have := t'.hour_lt; omega)
  have hminute := fixedDigits_lt_iff (w := 2) (a := t.minute) (b := t'.minute)
    (by have := t.minute_lt; omega) (by have := t'.minute_lt; omega)
  have hsecond := fixedDigits_lt_iff (w := 2) (a := t.second) (b := t'.second)
    (by have := t.second_lt; omega) (by have := t'.second_lt; omega)
  have hmicro := fixedDigits_lt_iff (w := 6) t.microsecond_lt t'.microsecond_lt
  unfold chars
  rw [append_cons_lt_iff (by simp), append_cons_lt_iff (by simp), append_cons_lt_iff (by simp),
    append_cons_lt_iff (by simp), append_cons_lt_iff (by simp), append_cons_lt_iff (by simp),
    append_lt_append_iff (by simp), hyear.1, hyear.2, hmonth.1, hmonth.2, hday.1, hday.2, hhour.1,
    hhour.2, hminute.1, hminute.2, hsecond.1, hsecond.2, hmicro.1]
  simp

/-- **The texts are in the order of the instants.** -/
theorem text_lt_iff : t.text < t'.text ↔ t.instant < t'.instant := by
  have hday : (t.year < t'.year ∨ t.year = t'.year ∧ (t.month < t'.month ∨
      t.month = t'.month ∧ t.day < t'.day)) →
      DateTime.dayNumber t.year t.month t.day < DateTime.dayNumber t'.year t'.month t'.day :=
    DateTime.dayNumber_lt t.isDay t'.isDay
  have hday' : (t'.year < t.year ∨ t'.year = t.year ∧ (t'.month < t.month ∨
      t'.month = t.month ∧ t'.day < t.day)) →
      DateTime.dayNumber t'.year t'.month t'.day < DateTime.dayNumber t.year t.month t.day :=
    DateTime.dayNumber_lt t'.isDay t.isDay
  have hsame : t.year = t'.year → t.month = t'.month → t.day = t'.day →
      DateTime.dayNumber t.year t.month t.day = DateTime.dayNumber t'.year t'.month t'.day := by
    intro hy hm hd
    rw [hy, hm, hd]
  rw [String.lt_iff_toList_lt, text, text, String.toList_ofList, String.toList_ofList, chars_lt_iff,
    instant_lt_iff]
  unfold seconds
  have h₁ := t.hour_lt
  have h₂ := t.minute_lt
  have h₃ := t.second_lt
  have h₄ := t.microsecond_lt
  have h₁' := t'.hour_lt
  have h₂' := t'.minute_lt
  have h₃' := t'.second_lt
  have h₄' := t'.microsecond_lt
  generalize DateTime.dayNumber t.year t.month t.day = n at *
  generalize DateTime.dayNumber t'.year t'.month t'.day = n' at *
  omega

/-! ## Reading back -/

theorem number_concat (s : Text) (c : CodePoint) :
    Text.number (s ++ [c]) = 10 * Text.number s + (c.val - '0'.toNat) := by
  rw [Text.number, List.foldl_append]
  rfl

/-- The digits of a fixed width spell their number. -/
theorem number_fixedDigits {w n : ℕ} (h : n < 10 ^ w) :
    Text.number (Text.ofChars (fixedDigits w n)) = n := by
  induction w generalizing n with
  | zero =>
    rw [pow_zero] at h
    show 0 = n
    omega
  | succ w ih =>
    rw [pow_succ] at h
    have hdigit : ∀ k < 10, ((Fin.ofNat _ (Nat.digitChar k).toNat : CodePoint).val - '0'.toNat) = k := by
      decide
    have hlast := hdigit (n % 10) (by omega)
    rw [fixedDigits, Text.ofChars_append]
    show Text.number (Text.ofChars (fixedDigits w (n / 10)) ++ [_]) = n
    rw [number_concat, ih (by omega), hlast]
    omega

theorem isDigit_fixedDigits {w n : ℕ} : ∀ c ∈ Text.ofChars (fixedDigits w n), isDigit c = true := by
  intro c hc
  obtain ⟨d, hd, rfl⟩ := List.mem_map.1 hc
  obtain ⟨k, hk, rfl⟩ := exists_of_mem_fixedDigits hd
  have hdigit : ∀ k < 10, isDigit (Fin.ofNat _ (Nat.digitChar k).toNat) = true := by decide
  exact hdigit k hk

/-- The text, as a text of code points, in its parts. -/
theorem lit_text (t : Civil) : Text.lit t.text =
    Text.ofChars (fixedDigits 4 t.year) ++ (Text.ofChars ['-'] ++
      (Text.ofChars (fixedDigits 2 t.month) ++ (Text.ofChars ['-'] ++
        (Text.ofChars (fixedDigits 2 t.day) ++ (Text.ofChars ['T'] ++
          (Text.ofChars (fixedDigits 2 t.hour) ++ (Text.ofChars [':'] ++
            (Text.ofChars (fixedDigits 2 t.minute) ++ (Text.ofChars [':'] ++
              (Text.ofChars (fixedDigits 2 t.second) ++ (Text.ofChars ['.'] ++
                (Text.ofChars (fixedDigits 6 t.microsecond) ++ Text.ofChars ['Z'])))))))))))) := by
  unfold text Text.lit
  rw [String.toList_ofList]
  simp only [chars, Text.ofChars, List.map_append, List.map_cons, List.map_nil, List.cons_append,
    List.nil_append]

/-- The text is a date-time of the grammar. -/
theorem matches_text (t : Civil) : Pattern.fullmatch DateTime.pattern (Text.lit t.text) = true := by
  have hhour : ∀ h < 24, Pattern.fullmatch DateTime.hour (Text.ofChars (fixedDigits 2 h)) = true := by
    decide
  have hminute : ∀ m < 60,
      Pattern.fullmatch DateTime.minute (Text.ofChars (fixedDigits 2 m)) = true := by
    decide
  have hsecond : ∀ m < 60,
      Pattern.fullmatch DateTime.second (Text.ofChars (fixedDigits 2 m)) = true := by
    decide
  have hfraction : Pattern.fullmatch
      (Pattern.optional (Pattern.oneOf "." * Pattern.plus DateTime.digit))
      (Text.ofChars ['.'] ++ Text.ofChars (fixedDigits 6 t.microsecond)) = true := by
    have hsome : Pattern.fullmatch (Pattern.oneOf "." * Pattern.plus DateTime.digit)
        (Text.ofChars ['.'] ++ Text.ofChars (fixedDigits 6 t.microsecond)) = true :=
      fullmatch_mul (by decide) (fullmatch_plus_fixedDigits 5 t.microsecond)
    rw [Pattern.fullmatch, RegularExpression.rmatch_iff_matches'] at hsome ⊢
    exact .inr hsome
  have hsplit : Text.lit t.text =
      Text.ofChars (fixedDigits 4 t.year) ++ Text.ofChars ['-'] ++
        Text.ofChars (fixedDigits 2 t.month) ++ Text.ofChars ['-'] ++
        Text.ofChars (fixedDigits 2 t.day) ++ Text.ofChars ['T'] ++
        Text.ofChars (fixedDigits 2 t.hour) ++ Text.ofChars [':'] ++
        Text.ofChars (fixedDigits 2 t.minute) ++ Text.ofChars [':'] ++
        Text.ofChars (fixedDigits 2 t.second) ++
        (Text.ofChars ['.'] ++ Text.ofChars (fixedDigits 6 t.microsecond)) ++
        Text.ofChars ['Z'] := by
    rw [lit_text]
    simp only [List.append_assoc]
  rw [hsplit]
  unfold DateTime.pattern
  refine fullmatch_mul (fullmatch_mul (fullmatch_mul (fullmatch_mul (fullmatch_mul (fullmatch_mul
    (fullmatch_mul (fullmatch_mul (fullmatch_mul (fullmatch_mul (fullmatch_mul (fullmatch_mul
      (fullmatch_fixedDigits 4 t.year) ?_) (fullmatch_fixedDigits 2 t.month)) ?_)
      (fullmatch_fixedDigits 2 t.day)) ?_) (hhour t.hour t.hour_lt)) ?_)
      (hminute t.minute t.minute_lt)) ?_) (hsecond t.second t.second_lt)) hfraction) ?_
  all_goals decide

/-- What follows the seconds. -/
theorem drop_text (t : Civil) : (Text.lit t.text).drop 19 = Text.ofChars ['.'] ++
    (Text.ofChars (fixedDigits 6 t.microsecond) ++ Text.ofChars ['Z']) := by
  rw [lit_text]
  rfl

theorem fraction_text (t : Civil) :
    DateTime.fraction ((Text.lit t.text).drop 19) = Text.ofChars (fixedDigits 6 t.microsecond) := by
  rw [drop_text]
  show (Text.ofChars (fixedDigits 6 t.microsecond) ++ Text.ofChars ['Z']).takeWhile isDigit = _
  rw [List.takeWhile_append_of_pos isDigit_fixedDigits]
  exact List.append_nil _

theorem zone_text (t : Civil) :
    DateTime.zone ((Text.lit t.text).drop 19) = Text.ofChars ['Z'] := by
  have hskip : ∀ c ∈ Text.ofChars ['.'] ++ Text.ofChars (fixedDigits 6 t.microsecond),
      (c.val = '.'.toNat || isDigit c) = true := by
    intro c hc
    rcases List.mem_append.1 hc with hc | hc
    · rw [List.mem_singleton.1 hc]
      rfl
    · rw [isDigit_fixedDigits c hc, Bool.or_true]
  rw [drop_text, ← List.append_assoc, DateTime.zone, List.dropWhile_append_of_pos hskip]
  rfl

/-- **The text names its instant.** -/
theorem instant?_text (t : Civil) : DateTime.instant? (Text.lit t.text) = some t.instant := by
  obtain ⟨hmonth, hmonth', hday, hdays⟩ := t.isDay
  have hyear : Text.number ((Text.lit t.text).take 4) = t.year := by
    rw [lit_text]
    exact number_fixedDigits (w := 4) t.year_range.2
  have hm : Text.number (((Text.lit t.text).drop 5).take 2) = t.month := by
    rw [lit_text]
    exact number_fixedDigits (w := 2) (by omega)
  have hd : Text.number (((Text.lit t.text).drop 8).take 2) = t.day := by
    rw [lit_text]
    exact number_fixedDigits (w := 2) t.day_lt
  have hhour : Text.number (((Text.lit t.text).drop 11).take 2) = t.hour := by
    rw [lit_text]
    exact number_fixedDigits (w := 2) (by have := t.hour_lt; omega)
  have hminute : Text.number (((Text.lit t.text).drop 14).take 2) = t.minute := by
    rw [lit_text]
    exact number_fixedDigits (w := 2) (by have := t.minute_lt; omega)
  have hsecond : Text.number (((Text.lit t.text).drop 17).take 2) = t.second := by
    rw [lit_text]
    exact number_fixedDigits (w := 2) (by have := t.second_lt; omega)
  have hmicro : Text.number (Text.ofChars (fixedDigits 6 t.microsecond)) = t.microsecond :=
    number_fixedDigits t.microsecond_lt
  have hlength : (Text.ofChars (fixedDigits 6 t.microsecond)).length = 6 := by
    rw [Text.ofChars, List.length_map, length_fixedDigits]
  have hoffset : DateTime.offset (Text.ofChars ['Z']) = 0 := by decide
  unfold DateTime.instant?
  dsimp only
  rw [hyear, hm, hd, hhour, hminute, hsecond, fraction_text, zone_text, hmicro, hlength, hoffset,
    sub_zero, if_pos ⟨matches_text t, hmonth, hmonth', hday, hdays⟩]
  rfl

end Civil

end PaaRuntime
