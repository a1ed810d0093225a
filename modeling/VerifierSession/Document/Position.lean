/-!
# Positions and spans

* `Position` is a line and a character in it, both counted from zero and ordered line first;
* `Span` is a half-open range of positions that does not run backwards;
* `InvalidRange` is a range of offsets that no span stands for.
-/

namespace VerifierSession

/-- A line and a character in it, counted from zero. -/
structure Position where
  line : Nat
  character : Nat
  deriving DecidableEq, Repr

def Position.le (p q : Position) : Bool :=
  decide (p.line < q.line) || (p.line == q.line && decide (p.character ≤ q.character))

/-- A half-open range of positions. -/
structure Span where
  start : Position
  stop : Position
  ordered : start.le stop = true
  deriving DecidableEq, Repr

/-- The span between two positions, unless it runs backwards. -/
def Span.between? (start stop : Position) : Option Span :=
  if h : start.le stop = true then some ⟨start, stop, h⟩ else none

/-- A range of offsets that cannot be placed in a document. -/
structure InvalidRange where
  left : Int
  right : Int
  deriving DecidableEq, Repr

def InvalidRange.message (r : InvalidRange) : String :=
  "invalid source range [" ++ toString r.left ++ ", " ++ toString r.right ++ ")"

end VerifierSession
