/-!
# Reading UTF-8

A byte stream is read as UTF-8 one byte at a time.  Between characters nothing is owed; inside one
the reader keeps the value so far, the number of continuation bytes owed and the range the next
one must fall in.  A byte that cannot continue a character ends it as a broken piece and is read
afresh, so a broken piece is a longest run that a well-formed character could start with.

* `Utf8.step` reads one byte; what it settles is a list of pieces, `none` for a broken one;
* `Utf8.pieces` reads a whole stream, and a character left unfinished at its end is broken;
* `Utf8.lossy` puts the replacement character for every broken piece;
* `Utf8.text?` is the text of a stream that has none.
-/

namespace VerifierSession
namespace Text
namespace Utf8

/-- Where the reader stands between two bytes. -/
inductive Pending where
  | between
  | inside (value owed low high : Nat)
  deriving DecidableEq, Repr

def first (b : Nat) : List (Option Char) × Pending :=
  if b < 0x80 then ([some (Char.ofNat b)], .between)
  else if 0xC2 ≤ b ∧ b ≤ 0xDF then ([], .inside (b - 0xC0) 1 0x80 0xBF)
  else if b = 0xE0 then ([], .inside 0 2 0xA0 0xBF)
  else if b = 0xED then ([], .inside 0xD 2 0x80 0x9F)
  else if 0xE1 ≤ b ∧ b ≤ 0xEF then ([], .inside (b - 0xE0) 2 0x80 0xBF)
  else if b = 0xF0 then ([], .inside 0 3 0x90 0xBF)
  else if 0xF1 ≤ b ∧ b ≤ 0xF3 then ([], .inside (b - 0xF0) 3 0x80 0xBF)
  else if b = 0xF4 then ([], .inside 4 3 0x80 0x8F)
  else ([none], .between)

/-- Reads one byte: the pieces it settles and where the reader stands after it. -/
def step (p : Pending) (b : Nat) : List (Option Char) × Pending :=
  match p with
  | .between => first b
  | .inside value owed low high =>
      if low ≤ b ∧ b ≤ high then
        let value := value * 64 + (b - 0x80)
        if owed ≤ 1 then ([some (Char.ofNat value)], .between)
        else ([], .inside value (owed - 1) 0x80 0xBF)
      else
        let (settled, p) := first b
        (none :: settled, p)

/-- The pieces of a stream, read from where the reader stands. -/
def piecesFrom (p : Pending) : List UInt8 → List (Option Char)
  | [] =>
      match p with
      | .between => []
      | .inside .. => [none]
  | b :: bs =>
      let (settled, p) := step p b.toNat
      settled ++ piecesFrom p bs

/-- The characters and broken pieces of a stream. -/
def pieces (bs : List UInt8) : List (Option Char) :=
  piecesFrom .between bs

/-- The text of a stream, with the replacement character for each broken piece. -/
def lossy (bs : List UInt8) : List Char :=
  (pieces bs).map fun piece => piece.getD '\uFFFD'

/-- The text of a stream, if no piece of it is broken. -/
def text? (bs : List UInt8) : Option (List Char) :=
  (pieces bs).mapM id

def bytes (s : String) : List UInt8 :=
  s.toUTF8.toList

end Utf8
end Text
end VerifierSession
