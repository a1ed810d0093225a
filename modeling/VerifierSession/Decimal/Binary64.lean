import VerifierSession.Decimal.Power

/-!
# Binary floating-point magnitudes

Finite magnitudes of the 64-bit binary format, as exact numbers: a mantissa below 2^53 times a
power of two from 2^-1074 to 2^971.

* `Binary64.nearest` rounds a quotient of naturals to the nearest such number, a tie going to the
  even mantissa; a quotient too large for the format has none;
* `Binary64.mul`, `Binary64.div` round the exact product and quotient;
* `Binary64.ofDecimal` scales a whole number by a power of ten, one rounded step at a time.
-/

namespace VerifierSession
namespace Decimal

/-- The quotient rounded to the nearest natural, a tie going to the even one. -/
def roundDiv (num den : Nat) : Nat :=
  let q := num / den
  let twice := 2 * (num % den)
  if twice < den then q
  else if den < twice then q + 1
  else if q % 2 = 0 then q
  else q + 1

/-- The magnitude `mantissa * 2 ^ exponent`. -/
structure Binary64 where
  mantissa : Nat
  exponent : Int
  deriving DecidableEq, Repr

namespace Binary64

/-- Zero, which has the least exponent. -/
def zero : Binary64 :=
  ⟨0, -1074⟩

/-- Numerator and denominator of a magnitude. -/
def fraction (x : Binary64) : Nat × Nat :=
  (x.mantissa * twoTo x.exponent.toNat, twoTo (-x.exponent).toNat)

/-- The exponent at which a quotient has a mantissa of 53 bits, or the least one. -/
def exponentFor (num den : Nat) : Int :=
  let e : Int := (Nat.log2 num : Int) - (Nat.log2 den : Int) - 52
  let floor := num * twoTo (-e).toNat / (den * twoTo e.toNat)
  max (-1074) (if floor < twoTo 52 then e - 1 else e)

/-- The magnitude nearest to a quotient, unless it is too large. -/
def nearest (num den : Nat) : Option Binary64 :=
  if num = 0 then some zero
  else
    let e := exponentFor num den
    let m := roundDiv (num * twoTo (-e).toNat) (den * twoTo e.toNat)
    let x : Binary64 := if m = twoTo 53 then ⟨twoTo 52, e + 1⟩ else ⟨m, e⟩
    if x.exponent ≤ 971 then some x else none

def mul (x y : Binary64) : Option Binary64 :=
  nearest (x.fraction.1 * y.fraction.1) (x.fraction.2 * y.fraction.2)

/-- The rounded quotient by a magnitude other than zero. -/
def div (x y : Binary64) : Option Binary64 :=
  nearest (x.fraction.1 * y.fraction.2) (x.fraction.2 * y.fraction.1)

/-- The power of ten, for exponents the format holds. -/
def ofTenTo (k : Nat) : Binary64 :=
  (nearest (tenTo k) 1).getD zero

/-- One division by the largest power of ten, which never leaves the format. -/
def shrink (x : Binary64) : Binary64 :=
  (x.div (ofTenTo 308)).getD zero

/--
A whole number below 2^64 times a power of ten, rounded after each step: the number itself, then
division by 10^308 while the exponent is below -308, then one multiplication or division.  Four
divisions take every such number to zero, so more of them change nothing.
-/
def ofDecimal (significand : Nat) (exponent : Int) : Option Binary64 :=
  match nearest significand 1 with
  | none => none
  | some x =>
      if x.mantissa = 0 then some zero
      else if 308 < exponent then none
      else if 0 ≤ exponent then x.mul (ofTenTo exponent.toNat)
      else
        let down := (-exponent).toNat
        let steps := (down - 1) / 308
        if 4 ≤ steps then some zero
        else (Nat.repeat shrink steps x).div (ofTenTo (down - 308 * steps))

end Binary64
end Decimal
end VerifierSession
