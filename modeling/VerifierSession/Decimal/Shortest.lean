import VerifierSession.Decimal.Binary64

/-!
# Shortest decimals

The decimal with the fewest digits that still rounds to a given magnitude, and its text.

* `interval` is the set of reals that round to a magnitude, in quarters of its last place;
* `shortest` tries the two neighbours of the magnitude on the grids of one, two, … seventeen
  digits; the first grid with a neighbour inside the interval wins, of two the nearer;
* `Layout` says which exponents are written positionally, and `Layout.render` writes the text.
-/

namespace VerifierSession
namespace Decimal

/-- The bounds of the reals that round to a magnitude, in units of a quarter of its last place. -/
def interval (x : Binary64) : Nat × Nat :=
  let below := if x.mantissa = twoTo 52 ∧ -1074 < x.exponent then 1 else 2
  (4 * x.mantissa - below, 4 * x.mantissa + 2)

/-- The power of ten of the leading digit of a magnitude other than zero. -/
def leadingExponent (x : Binary64) : Int :=
  let (num, den) := x.fraction
  ((Nat.toDigits 10 (num * tenTo 400 / den)).length : Int) - 401

/-- The multiple of `10 ^ k` next to a magnitude that rounds to it, if there is one. -/
def onGrid? (x : Binary64) (k : Int) : Option Nat :=
  let quarter := x.exponent - 2
  let ten := tenTo k.toNat * twoTo (-quarter).toNat
  let unit := twoTo quarter.toNat * tenTo (-k).toNat
  let (low, high) := interval x
  let inside (d : Nat) : Bool :=
    if x.mantissa % 2 = 0 then decide (low * unit ≤ d * ten) && decide (d * ten ≤ high * unit)
    else decide (low * unit < d * ten) && decide (d * ten < high * unit)
  let value := 4 * x.mantissa * unit
  let d := value / ten
  if inside d && inside (d + 1) then
    let twice := 2 * value
    let middle := (2 * d + 1) * ten
    if twice < middle then some d
    else if middle < twice then some (d + 1)
    else if d % 2 = 0 then some d
    else some (d + 1)
  else if inside d then some d
  else if inside (d + 1) then some (d + 1)
  else none

/-- The fewest digits that round to a magnitude other than zero, and the power of ten they count. -/
def shortest (x : Binary64) : Nat × Int :=
  let p := leadingExponent x
  let hit := (List.range 17).findSome? fun (n : Nat) =>
    let k := p - (n : Int)
    (onGrid? x k).map fun d => (d, k)
  hit.getD (0, 0)

/-- Which powers of ten of the leading digit are written with a point and no exponent. -/
structure Layout where
  least : Int
  below : Int

namespace Layout

/-- The digits as a number with a point, the leading one standing for `10 ^ e`. -/
def positional (digits : List Char) (e : Int) : List Char :=
  if e < 0 then
    '0' :: '.' :: List.replicate ((-e).toNat - 1) '0' ++ digits
  else
    let whole := e.toNat + 1
    let padded := digits ++ List.replicate (whole - digits.length) '0'
    let fraction := digits.drop whole
    padded.take whole ++ '.' :: (if fraction.isEmpty then ['0'] else fraction)

/-- The digits as a number from one to ten with a signed exponent. -/
def scientific (digits : List Char) (e : Int) : List Char :=
  let mantissa :=
    match digits with
    | d :: f :: rest => d :: '.' :: f :: rest
    | short => short
  let sign := if e < 0 then '-' else '+'
  mantissa ++ 'e' :: sign :: Nat.toDigits 10 e.natAbs

def render (layout : Layout) (negative : Bool) (x : Binary64) : String :=
  let magnitude :=
    if x.mantissa = 0 then ['0', '.', '0']
    else
      let (d, k) := shortest x
      let all := Nat.toDigits 10 d
      let e := k + (all.length : Int) - 1
      let digits := (all.reverse.dropWhile (· == '0')).reverse
      if layout.least ≤ e ∧ e < layout.below then positional digits e
      else scientific digits e
  String.ofList (if negative then '-' :: magnitude else magnitude)

end Layout
end Decimal
end VerifierSession
