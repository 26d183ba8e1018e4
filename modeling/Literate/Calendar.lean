import Literate.Number

/-! The date and time of a moment, in the fixed format of the substitution that names it. -/

namespace Literate.Calendar

structure Date where
  year : Int
  month : Nat
  day : Nat
deriving DecidableEq, Repr

/-- The date of a day counted from the first of January 1970. Years are taken from March on, so
that the leap day ends a year; 400 of them have 146097 days. -/
def dateOfDay (day : Int) : Date :=
  let z := day + 719468
  let era := z.fdiv 146097
  let doe := (z.fmod 146097).toNat
  let yoe := (doe - doe / 1460 + doe / 36524 - doe / 146096) / 365
  let doy := doe - (365 * yoe + yoe / 4 - yoe / 100)
  let mp := (5 * doy + 2) / 153
  let month := if mp < 10 then mp + 3 else mp - 9
  ⟨era * 400 + yoe + (if month ≤ 2 then 1 else 0), month, doy - (153 * mp + 2) / 5 + 1⟩

def weekdays : List Text := ["Thu", "Fri", "Sat", "Sun", "Mon", "Tue", "Wed"]

def months : List Text :=
  ["Jan", "Feb", "Mar", "Apr", "May", "Jun", "Jul", "Aug", "Sep", "Oct", "Nov", "Dec"]

/-- Decimal digits, filled up on the left. -/
def paddedNat (fill : UInt8) (width n : Nat) : Text :=
  let digits := Text.ofNat n
  List.replicate (width - digits.length) fill ++ digits

def yearText (y : Int) : Text :=
  (if y < 0 then ("-" : Text) else []) ++ paddedNat 48 4 y.natAbs

/-- The seconds from the first of March of the year -292277022400 to the start of 1970. -/
def origin : Int := 9223372028741760000

/-- Time is counted in a word of 64 bits from the origin on, so a moment before it comes round at
the other end. -/
def representable (seconds : Int) : Int := (seconds + origin).emod Number.wordRange - origin

/-- Weekday, month, day, time and year of a number of seconds since 1970, in universal time. -/
def text (seconds : Int) : Text :=
  let seconds := representable seconds
  let day := seconds.fdiv 86400
  let rest := (seconds.fmod 86400).toNat
  let date := dateOfDay day
  Text.join " " [
    weekdays.getD (day.fmod 7).toNat [],
    months.getD (date.month - 1) [],
    paddedNat 32 2 date.day,
    Text.join ":" [paddedNat 48 2 (rest / 3600), paddedNat 48 2 (rest / 60 % 60),
      paddedNat 48 2 (rest % 60)],
    yearText date.year]

/-- Date and time to the millisecond of a number of milliseconds since 1970, as log lines show
them. -/
def stamp (milliseconds : Int) : Text :=
  let seconds := milliseconds.fdiv 1000
  let rest := (seconds.fmod 86400).toNat
  let date := dateOfDay (seconds.fdiv 86400)
  Text.join "-" [yearText date.year, paddedNat 48 2 date.month, paddedNat 48 2 date.day] ++ "T" ++
    Text.join ":" [paddedNat 48 2 (rest / 3600), paddedNat 48 2 (rest / 60 % 60),
      paddedNat 48 2 (rest % 60)] ++
    "." ++ paddedNat 48 3 (milliseconds.fmod 1000).toNat ++ "Z"

end Literate.Calendar
