/-!
# Dates

Days are counted from the first of January 1970 in the proleptic Gregorian calendar.  A year is
taken to begin in March, so that a leap day is its last; four hundred years then have a fixed
number of days; `Date.ofDay` is the date of a day.
-/

namespace VerifierSession

/-- A date of the proleptic Gregorian calendar. -/
structure Date where
  year : Int
  month : Nat
  day : Nat
  deriving DecidableEq, Repr

namespace Date

/-- The days of four hundred years. -/
def eraDays : Int :=
  146097

/-- The days from the first of March of the year 0 to the first of January 1970. -/
def epoch : Int :=
  719468

/-- The years since March of an era's first year, for a day of the era. -/
def yearOfEra (dayOfEra : Nat) : Nat :=
  (dayOfEra - dayOfEra / 1460 + dayOfEra / 36524 - dayOfEra / 146096) / 365

def daysBeforeYear (yearOfEra : Nat) : Nat :=
  365 * yearOfEra + yearOfEra / 4 - yearOfEra / 100

/-- The months since March, for a day of the year that begins in March. -/
def monthFromMarch (dayOfYear : Nat) : Nat :=
  (5 * dayOfYear + 2) / 153

/-- The days before a month, counted from March. -/
def daysBeforeMonth (fromMarch : Nat) : Nat :=
  (153 * fromMarch + 2) / 5

def ofDay (day : Int) : Date :=
  let shifted := day + epoch
  let era := shifted.fdiv eraDays
  let dayOfEra := (shifted.fmod eraDays).toNat
  let year := yearOfEra dayOfEra
  let dayOfYear := dayOfEra - daysBeforeYear year
  let fromMarch := monthFromMarch dayOfYear
  let month := if fromMarch < 10 then fromMarch + 3 else fromMarch - 9
  ⟨era * 400 + year + (if month ≤ 2 then 1 else 0), month,
    dayOfYear - daysBeforeMonth fromMarch + 1⟩

end Date
end VerifierSession
