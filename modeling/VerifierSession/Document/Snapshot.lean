import VerifierSession.Document.Position
import VerifierSession.Text.WordCharacter

/-!
# Documents

The text under verification, as it was when its verification began.  Byte offsets are turned into
positions: the line is found among the offsets where lines start, and the character is counted
from there in the units of the document's encoding.  A line feed ends a line, and a carriage
return right before it belongs to the line break.

* `partitionPoint` finds by halving how many elements at the front of a list meet a test;
* `Snapshot.floorBoundary` takes an offset back to the start of its character, or to the end;
* `Snapshot.positionAt` is the position of an offset; inside a line break it is the line's end;
* `Snapshot.span`, `Snapshot.wordSpanAt` place ranges and identifiers.
-/

namespace VerifierSession

/-- The unit in which characters of a line are counted. -/
inductive Encoding where
  | utf8
  | utf16
  | utf32
  deriving DecidableEq, Repr

/-- How many units a character takes. -/
def Encoding.width (encoding : Encoding) (c : Char) : Nat :=
  match encoding with
  | utf8 => c.utf8Size
  | utf16 => if c.toNat < 0x10000 then 1 else 2
  | utf32 => 1

/-- Counts of lines and characters stop at the largest number of 32 bits. -/
def saturate (n : Nat) : Nat :=
  min n 4294967295

def Encoding.units (encoding : Encoding) (cs : List Char) : Nat :=
  match cs with
  | [] => 0
  | c :: cs => encoding.width c + encoding.units cs

/-- How many units a text takes, as far as they are counted. -/
def Encoding.measure (encoding : Encoding) (cs : List Char) : Nat :=
  saturate (encoding.units cs)

/-! ## Byte offsets in a text -/

def byteLength (cs : List Char) : Nat :=
  match cs with
  | [] => 0
  | c :: cs => c.utf8Size + byteLength cs

/-- The characters that end within the first bytes of a text. -/
def takeBytes (n : Nat) (cs : List Char) : List Char :=
  match cs with
  | [] => []
  | c :: cs => if c.utf8Size ≤ n then c :: takeBytes (n - c.utf8Size) cs else []

def dropBytes (n : Nat) (cs : List Char) : List Char :=
  match cs with
  | [] => []
  | c :: cs => if c.utf8Size ≤ n then dropBytes (n - c.utf8Size) cs else c :: cs

/-- The offsets behind the line feeds of a text that starts at an offset. -/
def lineStartsFrom (offset : Nat) (cs : List Char) : List Nat :=
  match cs with
  | [] => []
  | c :: cs =>
      let behind := offset + c.utf8Size
      if c = '\n' then behind :: lineStartsFrom behind cs else lineStartsFrom behind cs

/-! ## Sorted offsets -/

/-- Halves a stretch of a list until it is one element long, towards the last that meets a test. -/
def narrow (test : Nat → Bool) (xs : List Nat) (base size : Nat) : Nat :=
  if size ≤ 1 then base
  else
    let half := size / 2
    let middle := base + half
    narrow test xs (if test (xs.getD middle 0) then middle else base) (size - half)
  termination_by size

/--
How many elements at the front of a list meet a test.  Behind them none does: the list is sorted,
and the test is that an element is small.
-/
def partitionPoint (test : Nat → Bool) (xs : List Nat) : Nat :=
  if xs.isEmpty then 0
  else
    let last := narrow test xs 0 xs.length
    if test (xs.getD last 0) then last + 1 else last

/-- A document's text, and the unit its characters are counted in. -/
structure Snapshot where
  chars : List Char
  encoding : Encoding
  deriving DecidableEq, Repr

namespace Snapshot

def ofText (text : String) (encoding : Encoding) : Snapshot :=
  ⟨text.toList, encoding⟩

def lineStarts (d : Snapshot) : List Nat :=
  0 :: lineStartsFrom 0 d.chars

/-- The last boundary between characters that is not behind an offset. -/
def floorBoundary (d : Snapshot) (offset : Nat) : Nat :=
  byteLength (takeBytes offset d.chars)

def slice (d : Snapshot) (start stop : Nat) : List Char :=
  takeBytes (stop - start) (dropBytes start d.chars)

/-- The offset where the content of a line ends and its line break begins. -/
def contentEnd (d : Snapshot) (line : Nat) : Nat :=
  match d.lineStarts[line + 1]? with
  | none => byteLength d.chars
  | some nextStart =>
      let newline := nextStart - 1
      let start := d.lineStarts.getD line 0
      if start < newline ∧ (takeBytes newline d.chars).getLast? = some '\r' then newline - 1
      else newline

def lineAt (d : Snapshot) (offset : Nat) : Nat :=
  partitionPoint (fun start => decide (start ≤ offset)) d.lineStarts - 1

def positionAt (d : Snapshot) (offset : Nat) : Position :=
  let offset := d.floorBoundary offset
  let line := d.lineAt offset
  let start := d.lineStarts.getD line 0
  let stop := min offset (d.contentEnd line)
  ⟨saturate line, d.encoding.measure (d.slice start stop)⟩

def span (d : Snapshot) (left right : Int) : Except InvalidRange Span :=
  if left < 0 ∨ right < 0 ∨ right < left then .error ⟨left, right⟩
  else
    match Span.between? (d.positionAt left.toNat) (d.positionAt right.toNat) with
    | some span => .ok span
    | none => .error ⟨left, right⟩

def wordAt (d : Snapshot) (offset : Nat) : List Char :=
  (dropBytes offset d.chars).takeWhile Text.isWordCharacter

/-- The span of the identifier that starts at an offset; it is empty where none starts. -/
def wordSpanAt (d : Snapshot) (offset : Int) : Except InvalidRange Span :=
  if offset < 0 then .error ⟨offset, offset⟩
  else
    let start := d.floorBoundary offset.toNat
    let stop := start + byteLength (d.wordAt start)
    match Span.between? (d.positionAt start) (d.positionAt stop) with
    | some span => .ok span
    | none => .error ⟨offset, offset⟩

end Snapshot
end VerifierSession
