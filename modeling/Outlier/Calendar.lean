/-! # Calendar moments

The proleptic Gregorian calendar in universal time: the Gregorian leap year rule for every year,
with a year 0 and negative years before it. A moment is counted in milliseconds from the start of
1970. Moments outside the years -262143 to 262142 have no calendar form. -/

namespace Outlier

/-- A moment with calendar fields. -/
structure Moment where
  year : Int
  month : Nat
  day : Nat
  hour : Nat
  minute : Nat
  second : Nat
  milli : Nat
  deriving DecidableEq

namespace Moment

/-- Milliseconds of a day. -/
def dayMillis : Int := 86400000

/-- Days of the 400 years after which the calendar repeats. -/
def eraDays : Int := 146097

/-- Year, month and day of a day, counted from the first of January 1970. The count is taken from
the first of March of year 0, so that a leap day is the last day of its year. -/
def date (day : Int) : Int × Nat × Nat :=
  let sinceMarch := day + 719468
  let era := sinceMarch.fdiv eraDays
  let inEra := (sinceMarch - era * eraDays).toNat
  let yearOfEra := (inEra - inEra / 1460 + inEra / 36524 - inEra / 146096) / 365
  let inYear := inEra - (365 * yearOfEra + yearOfEra / 4 - yearOfEra / 100)
  let monthFromMarch := (5 * inYear + 2) / 153
  let dayOfMonth := inYear - (153 * monthFromMarch + 2) / 5 + 1
  let month := if monthFromMarch < 10 then monthFromMarch + 3 else monthFromMarch - 9
  let year := yearOfEra + era * 400
  (if month ≤ 2 then year + 1 else year, month, dayOfMonth)

/-- The moment that lies `millis` milliseconds after the start of 1970. -/
def ofMillis? (millis : Int) : Option Moment :=
  let day := millis.fdiv dayMillis
  let rest := (millis - day * dayMillis).toNat
  let (year, month, dayOfMonth) := date day
  if -262143 ≤ year && year ≤ 262142 then
    some { year := year, month := month, day := dayOfMonth, hour := rest / 3600000
           minute := rest / 60000 % 60, second := rest / 1000 % 60, milli := rest % 1000 }
  else none

end Moment
end Outlier
