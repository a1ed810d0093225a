import VerifierSession.Decimal.Power
import VerifierSession.Toml.Node

/-!
# TOML numbers and moments

A value without quotes or brackets is a word: a boolean, a number, or a moment in time.  Nobody
asks for the value of a number or a moment here, so reading one is checking its form: a number
must be one that 128 bits or a finite floating-point number can hold, and a moment must exist in
the calendar.

* `Scalar.isInteger`, `Scalar.isFloat`, `Scalar.isMoment` recognise the words;
* `Scalar.node?` is the value of a word.
-/

namespace VerifierSession
namespace Toml
namespace Scalar

open Decimal (tenTo twoTo)

def isDigit (c : Char) : Bool :=
  decide ('0' ≤ c) && decide (c ≤ '9')

/-- The value of a digit of a base, if the character is one. -/
def digitValue? (base : Nat) (c : Char) : Option Nat :=
  let value :=
    if isDigit c then c.toNat - '0'.toNat
    else if 'a' ≤ c ∧ c ≤ 'f' then c.toNat - 'a'.toNat + 10
    else if 'A' ≤ c ∧ c ≤ 'F' then c.toNat - 'A'.toNat + 10
    else base
  if value < base then some value else none

/-- Reads digits that single underscores may separate; `first` says that none was read yet. -/
def digitsFrom (base : Nat) (first : Bool) (cs : List Char) : Option (List Nat) :=
  match cs with
  | [] => if first then none else some []
  | '_' :: cs => if first then none else digitsFrom base true cs
  | c :: cs =>
      match digitValue? base c, digitsFrom base false cs with
      | some d, some ds => some (d :: ds)
      | _, _ => none

def ofDigits (base : Nat) (digits : List Nat) : Nat :=
  digits.foldl (fun n d => n * base + d) 0

/-- The number written in a base, if every character belongs to it. -/
def natural? (base : Nat) (cs : List Char) : Option Nat :=
  (digitsFrom base true cs).map (ofDigits base)

/-- A word's sign, and what follows it. -/
def unsigned (cs : List Char) : Bool × List Char :=
  match cs with
  | '-' :: rest => (true, rest)
  | '+' :: rest => (false, rest)
  | _ => (false, cs)

/-- Whether a decimal number has no needless zero in front. -/
def isPlain (cs : List Char) : Bool :=
  match cs with
  | ['0'] => true
  | '0' :: _ => false
  | _ => true

/-- Whether an integer fits into 128 bits, with or without a sign. -/
def fits (minus : Bool) (n : Nat) : Bool :=
  if minus then decide (n ≤ twoTo 127) else decide (n < twoTo 128)

def isInteger (cs : List Char) : Bool :=
  match cs with
  | '0' :: 'x' :: rest => ((natural? 16 rest).map (fits false)).getD false
  | '0' :: 'o' :: rest => ((natural? 8 rest).map (fits false)).getD false
  | '0' :: 'b' :: rest => ((natural? 2 rest).map (fits false)).getD false
  | _ =>
      let (minus, digits) := unsigned cs
      isPlain digits && ((natural? 10 digits).map (fits minus)).getD false

/-! ## Floating-point numbers -/

/-- A significand and a power of ten below the largest finite number and what rounds to it. -/
def isFinite (significand : Nat) (exponent : Int) : Bool :=
  let digits : Int := (Nat.toDigits 10 significand).length
  if significand = 0 ∨ digits + exponent < 300 then true
  else if 320 < digits + exponent then false
  else decide (significand * tenTo exponent.toNat <
    (twoTo 1024 - twoTo 970) * tenTo (-exponent).toNat)

def exponent? (cs : List Char) : Option Int :=
  let (minus, digits) := unsigned cs
  (natural? 10 digits).map fun n => if minus then -(n : Int) else n

def isFloat (cs : List Char) : Bool :=
  let (_, body) := unsigned cs
  if body = ['i', 'n', 'f'] ∨ body = ['n', 'a', 'n'] then true
  else
    let isMark (c : Char) : Bool := c == 'e' || c == 'E'
    let mantissa := body.takeWhile (!isMark ·)
    let scale := body.dropWhile (!isMark ·)
    let whole := mantissa.takeWhile (· != '.')
    let point := mantissa.dropWhile (· != '.')
    let fraction? : Option (List Nat) :=
      match point with
      | [] => some []
      | _ :: digits => digitsFrom 10 true digits
    let exponent? : Option Int :=
      match scale with
      | [] => some 0
      | _ :: digits => exponent? digits
    match digitsFrom 10 true whole, fraction?, exponent? with
    | some w, some f, some e =>
        isPlain whole && !(point.isEmpty && scale.isEmpty) &&
          isFinite (ofDigits 10 (w ++ f)) (e - f.length)
    | _, _, _ => false

/-! ## Moments -/

def fixed? (count : Nat) (cs : List Char) : Option (Nat × List Char) :=
  let digits := cs.take count
  if digits.length = count ∧ digits.all isDigit = true then
    some (ofDigits 10 (digits.map fun c => c.toNat - '0'.toNat), cs.drop count)
  else none

def expect? (c : Char) (cs : List Char) : Option (List Char) :=
  match cs with
  | first :: rest => if first = c then some rest else none
  | [] => none

def isLeapYear (year : Nat) : Bool :=
  year % 4 == 0 && (year % 100 != 0 || year % 400 == 0)

def monthDays (year month : Nat) : Nat :=
  if month = 2 then (if isLeapYear year then 29 else 28)
  else if month = 4 ∨ month = 6 ∨ month = 9 ∨ month = 11 then 30
  else 31

def date? (cs : List Char) : Option (List Char) := do
  let (year, cs) ← fixed? 4 cs
  let cs ← expect? '-' cs
  let (month, cs) ← fixed? 2 cs
  let cs ← expect? '-' cs
  let (day, cs) ← fixed? 2 cs
  if 1 ≤ month ∧ month ≤ 12 ∧ 1 ≤ day ∧ day ≤ monthDays year month then some cs else none

/-- Passes over the fraction of a second, if there is one. -/
def fraction? (cs : List Char) : Option (List Char) :=
  match cs with
  | '.' :: rest =>
      if (rest.takeWhile isDigit).isEmpty then none else some (rest.dropWhile isDigit)
  | _ => some cs

/-- Passes over a time of day; the seconds may be left out. -/
def time? (cs : List Char) : Option (List Char) := do
  let (hour, cs) ← fixed? 2 cs
  let cs ← expect? ':' cs
  let (minute, cs) ← fixed? 2 cs
  if 23 < hour ∨ 59 < minute then none
  else
    match cs with
    | ':' :: cs =>
        let (second, cs) ← fixed? 2 cs
        if 60 < second then none else fraction? cs
    | _ => some cs

/-- Passes over an offset from universal time, if there is one. -/
def offset? (cs : List Char) : Option (List Char) :=
  let hours (cs : List Char) : Option (List Char) := do
    let (hour, cs) ← fixed? 2 cs
    let cs ← expect? ':' cs
    let (minute, cs) ← fixed? 2 cs
    if 23 < hour ∨ 59 < minute then none else some cs
  match cs with
  | 'Z' :: rest => some rest
  | 'z' :: rest => some rest
  | '+' :: rest => hours rest
  | '-' :: rest => hours rest
  | _ => some cs

/-- Whether a word is a date, a time, or both with or without an offset. -/
def isMoment (cs : List Char) : Bool :=
  match date? cs with
  | some [] => true
  | some (separator :: rest) =>
      (separator == 'T' || separator == 't' || separator == ' ') &&
        (time? rest).bind offset? == some []
  | none => time? cs == some []

def node? (cs : List Char) : Option Node :=
  if cs = ['t', 'r', 'u', 'e'] then some (.boolean true)
  else if cs = ['f', 'a', 'l', 's', 'e'] then some (.boolean false)
  else if isInteger cs || isFloat cs then some .number
  else if isMoment cs then some .moment
  else none

end Scalar
end Toml
end VerifierSession
