import Mathlib.Data.Rat.Defs
import Mathlib.Algebra.Order.Ring.Unbundled.Rat
import PaaRuntime.Lib.Text

/-!
# Date-times of RFC 3339

The texts of the grammar `date-time`, and the instant that each of them names: seconds, as a rational
number, in the proleptic Gregorian calendar at offset zero. One instant has many spellings.
-/

namespace PaaRuntime.DateTime

open Pattern

/-! ## The grammar -/

def digit : Pattern := range '0' '9'

/-- `time-hour`. -/
def hour : Pattern := oneOf "01" * digit + oneOf "2" * range '0' '3'

/-- `time-minute`. -/
def minute : Pattern := range '0' '5' * digit

/-- `time-second`, with the leap second. -/
def second : Pattern := minute + oneOf "6" * oneOf "0"

/-- `date-time`, but for the days that a month has. -/
def pattern : Pattern :=
  digit ^ 4 * oneOf "-" * digit ^ 2 * oneOf "-" * digit ^ 2 * oneOf "Tt" *
    hour * oneOf ":" * minute * oneOf ":" * second *
    optional (oneOf "." * plus digit) * (oneOf "Zz" + oneOf "+-" * hour * oneOf ":" * minute)

/-- The days of a month. -/
def daysInMonth (year month : ℕ) : ℕ :=
  if month = 2 then
    if year % 4 = 0 ∧ (year % 100 ≠ 0 ∨ year % 400 = 0) then 29 else 28
  else if month ∈ [4, 6, 9, 11] then 30 else 31

/-! ## Instants -/

/-- The number of a day, counted from the first of March of year 0. -/
def dayNumber (year month day : ℕ) : ℤ :=
  let y : ℤ := if month ≤ 2 then (year : ℤ) - 1 else year
  365 * y + y / 4 - y / 100 + y / 400 + ((153 * ((month + 9) % 12) + 2) / 5 + day : ℕ)

/-- The digits of the fraction, in what follows the seconds. -/
def fraction (rest : Text) : Text :=
  if rest.head?.map Fin.val = some '.'.toNat then (rest.drop 1).takeWhile isDigit else []

/-- The offset, in what follows the seconds. -/
def zone (rest : Text) : Text := rest.dropWhile fun c => c.val = '.'.toNat || isDigit c

/-- The seconds of an offset. -/
def offset (zone : Text) : ℤ :=
  let seconds : ℤ := Text.number ((zone.drop 1).take 2) * 3600 + Text.number ((zone.drop 4).take 2) * 60
  if zone.head?.map Fin.val = some '+'.toNat then seconds
  else if zone.head?.map Fin.val = some '-'.toNat then -seconds
  else 0

/-- The instant of a date-time. -/
def instant? (s : Text) : Option ℚ :=
  let year := Text.number (s.take 4)
  let month := Text.number ((s.drop 5).take 2)
  let day := Text.number ((s.drop 8).take 2)
  if fullmatch pattern s ∧ 1 ≤ month ∧ month ≤ 12 ∧ 1 ≤ day ∧ day ≤ daysInMonth year month then
    let seconds : ℤ := dayNumber year month day * 86400 + Text.number ((s.drop 11).take 2) * 3600 +
      Text.number ((s.drop 14).take 2) * 60 + Text.number ((s.drop 17).take 2) -
      offset (zone (s.drop 19))
    let digits := fraction (s.drop 19)
    some (seconds + Text.number digits / 10 ^ digits.length)
  else none

end PaaRuntime.DateTime
