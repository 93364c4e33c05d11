/-!
# Civil time

The date and the time of day, in UTC, of a moment given in seconds of Unix
time.  Dates follow the Gregorian calendar, extended to all years.
-/

namespace GrammarCompiler
namespace Timestamp

/-- A date of the Gregorian calendar. -/
structure Date where
  year : Int
  month : Nat
  day : Nat
  deriving DecidableEq

/-- The days of 400 years. -/
def daysPerEra : Int := 146097

/-- The date that lies the given number of days after 1 January 1970.  Years
are counted from March, so that the leap day comes last. -/
def dateOfDay (day : Int) : Date :=
  let shifted := day + 719468
  let era := shifted / daysPerEra
  let dayOfEra := (shifted % daysPerEra).toNat
  let yearOfEra :=
    (dayOfEra - dayOfEra / 1460 + dayOfEra / 36524 - dayOfEra / 146096) / 365
  let dayOfYear := dayOfEra - (365 * yearOfEra + yearOfEra / 4 - yearOfEra / 100)
  let monthFromMarch := (5 * dayOfYear + 2) / 153
  let month := if monthFromMarch < 10 then monthFromMarch + 3 else monthFromMarch - 9
  { year := (yearOfEra : Int) + era * 400 + (if month ≤ 2 then 1 else 0)
    month
    day := dayOfYear - (153 * monthFromMarch + 2) / 5 + 1 }

/-- A number with at least the given count of digits. -/
def padded (width value : Nat) : String :=
  String.ofList (List.replicate (width - value.repr.toList.length) '0') ++ value.repr

/-- Years from 0 to 9999 have four digits; others a sign and at least four. -/
def yearText (year : Int) : String :=
  if 0 ≤ year ∧ year ≤ 9999 then padded 4 year.toNat
  else (if year < 0 then "-" else "+") ++ padded 4 year.natAbs

/-- The form `year-month-day hour:minute:second`. -/
def text (seconds : Int) : String :=
  let date := dateOfDay (seconds / 86400)
  let second := (seconds % 86400).toNat
  yearText date.year ++ "-" ++ padded 2 date.month ++ "-" ++ padded 2 date.day ++ " " ++
    padded 2 (second / 3600) ++ ":" ++ padded 2 (second / 60 % 60) ++ ":" ++
    padded 2 (second % 60)

end Timestamp
end GrammarCompiler
