import VerifierSession.Json.Fault

/-!
# Reading positions

A cursor is what is left of a text together with the place reached.  A reader takes a cursor and
answers with a value and the cursor behind it, or with the first fault.

* `Cursor.refuse` is the fault at the next character, or at the end of the text;
* `Cursor.skipBlank` passes over JSON white space;
* `Cursor.takeDigits` reads a run of decimal digits.
-/

namespace VerifierSession
namespace Json

/-- What is left of a text, and the place reached in it. -/
structure Cursor where
  rest : List Char
  place : Place
  deriving DecidableEq, Repr

/-- A function that reads a value at a cursor. -/
abbrev Reader (α : Type) : Type :=
  Cursor → Except Fault (α × Cursor)

/-- The four characters that may stand between tokens. -/
def isJsonBlank (c : Char) : Bool :=
  c == ' ' || c == '\n' || c == '\t' || c == '\r'

def isDigit (c : Char) : Bool :=
  decide ('0' ≤ c) && decide (c ≤ '9')

def digitValue (c : Char) : Nat :=
  c.toNat - '0'.toNat

namespace Cursor

def start (cs : List Char) : Cursor :=
  ⟨cs, .start⟩

/-- The place of the next character, or the end of the text. -/
def next (c : Cursor) : Place :=
  match c.rest with
  | [] => c.place
  | ch :: _ => c.place.onto ch

/-- The fault that the next character, or the end of the text, is not what is needed. -/
def refuse (c : Cursor) (cause : Cause) : Fault :=
  ⟨cause, c.next⟩

/-- The fault that what was read up to here is not what is needed. -/
def reject (c : Cursor) (cause : Cause) : Fault :=
  ⟨cause, c.place⟩

def advance (c : Cursor) : Cursor :=
  match c.rest with
  | [] => c
  | ch :: rest => ⟨rest, c.place.past ch⟩

def skipWhile (p : Char → Bool) (cs : List Char) (place : Place) : Cursor :=
  match cs with
  | [] => ⟨[], place⟩
  | ch :: rest => if p ch then skipWhile p rest (place.past ch) else ⟨ch :: rest, place⟩

def skipBlank (c : Cursor) : Cursor :=
  skipWhile isJsonBlank c.rest c.place

/-- Reads a run of digits, possibly empty. -/
def takeDigits (c : Cursor) : List Nat × Cursor :=
  ((c.rest.takeWhile isDigit).map digitValue, skipWhile isDigit c.rest c.place)

/-- Reads the rest of a word; the first character that differs is refused. -/
def word (cs : List Char) (c : Cursor) : Except Fault Cursor :=
  match cs with
  | [] => .ok c
  | expected :: cs =>
      match c.rest with
      | [] => .error (c.refuse .endInValue)
      | ch :: _ => if ch = expected then word cs c.advance else .error (c.refuse .expectedWord)

end Cursor
end Json
end VerifierSession
