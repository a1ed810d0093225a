import VerifierSession.Log.Calendar
import VerifierSession.Severity

/-!
# Log entries

An entry is written with its moment in universal time to the millisecond, its level and its
message.

* a year of four digits stands alone, any other has a sign and at least four digits;
* a moment within a leap second is written as one second later than the second it follows, so as
  second 60 where it ends a minute.
-/

namespace VerifierSession

/--
A moment: seconds since 1970, and nanoseconds.  A leap second follows another one and is counted
with it, so there the nanoseconds are those of the second of two seconds.
-/
structure Moment where
  seconds : Int
  nanoseconds : Nat
  inSecond : nanoseconds < 2000000000
  deriving DecidableEq, Repr

structure LogEntry where
  moment : Moment
  level : LogLevel
  message : String
  deriving DecidableEq, Repr

/-- A number in at least so many digits. -/
def paddedDigits (width n : Nat) : List Char :=
  let digits := Nat.toDigits 10 n
  List.replicate (width - digits.length) '0' ++ digits

def yearDigits (year : Int) : List Char :=
  if 0 ≤ year ∧ year ≤ 9999 then paddedDigits 4 year.toNat
  else (if year < 0 then '-' else '+') :: paddedDigits 4 year.natAbs

def Date.chars (date : Date) : List Char :=
  yearDigits date.year ++ '-' :: paddedDigits 2 date.month ++ '-' :: paddedDigits 2 date.day

namespace Moment

/-- Whether a leap second, if it is one, ends a minute. -/
def isRegular (m : Moment) : Bool :=
  decide (m.nanoseconds < 1000000000) || m.seconds.fmod 60 == 59

/-- The moment with some seconds and nanoseconds.  A leap second has to end a minute. -/
def of? (seconds : Int) (nanoseconds : Nat) : Option Moment :=
  if h : nanoseconds < 2000000000 then
    let m : Moment := ⟨seconds, nanoseconds, h⟩
    if m.isRegular then some m else none
  else none

def day (m : Moment) : Int :=
  m.seconds.fdiv 86400

def secondOfDay (m : Moment) : Nat :=
  (m.seconds.fmod 86400).toNat

/-- The second within its minute, and one more for a leap second. -/
def second (m : Moment) : Nat :=
  m.secondOfDay % 60 + m.nanoseconds / 1000000000

/-- The milliseconds within its second, rounded down. -/
def millisecond (m : Moment) : Nat :=
  m.nanoseconds % 1000000000 / 1000000

def chars (m : Moment) : List Char :=
  (Date.ofDay m.day).chars ++
    'T' :: paddedDigits 2 (m.secondOfDay / 3600) ++
    ':' :: paddedDigits 2 (m.secondOfDay / 60 % 60) ++
    ':' :: paddedDigits 2 m.second ++
    '.' :: paddedDigits 3 m.millisecond ++ ['Z']

end Moment

def LogEntry.text (e : LogEntry) : String :=
  "[" ++ String.ofList e.moment.chars ++ "] [" ++ e.level.label ++ "] " ++ e.message

end VerifierSession
