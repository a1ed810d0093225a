import VerifierSession.Decimal.Shortest
import VerifierSession.Json.Cursor

/-!
# JSON numbers

A number is a natural below 2^64, a negative integer not below -2^63, or a floating-point number:
one with a point or an exponent, negative zero, or an integer outside those bounds.

* `readNumeral` reads a number whose sign has been read;
* the digits are gathered into a significand below 2^64, and those that no longer fit only move
  the power of ten (`absorb`);
* `Numeral.found` is the number as an error message names it.
-/

namespace VerifierSession
namespace Json

inductive Numeral where
  | natural (n : Nat)
  | negative (n : Nat)
  | real (minus : Bool) (magnitude : Decimal.Binary64)
  deriving DecidableEq, Repr

namespace Numeral

/-- A point is used from 10^-5 up to, but not at, 10^16. -/
def layout : Decimal.Layout :=
  ⟨-5, 16⟩

def found : Numeral → Unexpected
  | natural n => .natural n
  | negative n => .negative n
  | real minus magnitude => .real (layout.render minus magnitude)

/-- Takes digits into a significand while it stays below 2^64; the digits left over come back. -/
def absorb (significand : Nat) (digits : List Nat) : Nat × List Nat :=
  match digits with
  | [] => (significand, [])
  | d :: rest =>
      if significand * 10 + d < Decimal.twoTo 64 then absorb (significand * 10 + d) rest
      else (significand, d :: rest)

/-- The number with all its parts read, unless it is too large. -/
def scaled (minus : Bool) (significand : Nat) (exponent : Int) : Reader Numeral := fun c =>
  match Decimal.Binary64.ofDecimal significand exponent with
  | some x => .ok (.real minus x, c)
  | none => .error (c.reject .numberOutOfRange)

/-- An integer: one that has no place among the integers becomes a floating-point number. -/
def whole (minus : Bool) (significand : Nat) : Reader Numeral := fun c =>
  if !minus then .ok (.natural significand, c)
  else if 0 < significand ∧ significand ≤ Decimal.twoTo 63 then .ok (.negative significand, c)
  else scaled true significand 0 c

/--
The largest exponent that is kept.  A longer one is out of range as soon as the digit that makes
it so is read, except that it leaves zero behind when it is negative or the significand is zero.
-/
def exponentBound : Nat :=
  Decimal.twoTo 31 - 1

/-- Takes digits into an exponent; `none` with the digits left over if it grows too large. -/
def absorbExponent (exponent : Nat) (digits : List Nat) : Option Nat × List Nat :=
  match digits with
  | [] => (some exponent, [])
  | d :: rest =>
      if exponent * 10 + d ≤ exponentBound then absorbExponent (exponent * 10 + d) rest
      else (none, rest)

/-- Reads an exponent whose mark is the next character. -/
def readExponent (minus : Bool) (significand : Nat) (scale : Int) : Reader Numeral := fun c =>
  let c := c.advance
  let (down, c) :=
    match c.rest with
    | '+' :: _ => (false, c.advance)
    | '-' :: _ => (true, c.advance)
    | _ => (false, c)
  match c.takeDigits with
  | ([], c) => .error (c.refuse (if c.rest.isEmpty then .endInValue else .invalidNumber))
  | (digits, behind) =>
      match absorbExponent 0 digits with
      | (some exponent, _) =>
          scaled minus significand (if down then scale - exponent else scale + exponent) behind
      | (none, unread) =>
          if significand ≠ 0 ∧ !down then
            .error ⟨.numberOutOfRange, ⟨behind.place.line, behind.place.column - unread.length⟩⟩
          else .ok (.real minus .zero, behind)

/-- Reads what may follow the fraction. -/
def readScale (minus : Bool) (significand : Nat) (scale : Int) : Reader Numeral := fun c =>
  match c.rest with
  | 'e' :: _ | 'E' :: _ => readExponent minus significand scale c
  | _ => scaled minus significand scale c

/-- Reads a fraction whose point is the next character. -/
def readFraction (minus : Bool) (significand : Nat) (scale : Int) : Reader Numeral := fun c =>
  match c.advance.takeDigits with
  | ([], c) => .error (c.refuse (if c.rest.isEmpty then .endInValue else .invalidNumber))
  | (digits, behind) =>
      let (significand, left) := absorb significand digits
      readScale minus significand (scale - (digits.length - left.length : Nat)) behind

/-- Reads what may follow the digits before the point. -/
def readTail (minus : Bool) (significand dropped : Nat) : Reader Numeral := fun c =>
  match c.rest with
  | '.' :: _ => readFraction minus significand dropped c
  | 'e' :: _ | 'E' :: _ => readExponent minus significand dropped c
  | _ =>
      if dropped = 0 then whole minus significand c
      else scaled minus significand dropped c

end Numeral

/-- Reads a number whose sign has been read. -/
def readNumeral (minus : Bool) : Reader Numeral := fun c =>
  match c.rest with
  | [] => .error (c.refuse .endInValue)
  | '0' :: d :: _ =>
      if isDigit d then .error (c.advance.refuse .invalidNumber)
      else Numeral.readTail minus 0 0 c.advance
  | ['0'] => Numeral.readTail minus 0 0 c.advance
  | d :: _ =>
      if isDigit d then
        let (digits, behind) := c.takeDigits
        let (significand, left) := Numeral.absorb 0 digits
        Numeral.readTail minus significand left.length behind
      else .error (c.refuse .invalidNumber)

end Json
end VerifierSession
