import VerifierSession.Toml.Scalar

/-!
# TOML strings

Four forms: basic strings with escapes and literal strings without, each on one line or between
three quotation marks on several.

* the functions read behind the opening mark and answer with the text and what follows the closing
  mark;
* a line break right behind three opening marks is dropped, and so are the blanks and line breaks
  behind a backslash at the end of a line.
-/

namespace VerifierSession
namespace Toml
namespace Quotation

/-- Whether a character may stand in a string as itself. -/
def isPlain (c : Char) : Bool :=
  c == '\t' || (decide (0x20 ≤ c.toNat) && c.toNat != 0x7F)

/-- The character that a backslash and a letter stand for. -/
def escapeValue? (c : Char) : Option Char :=
  match c with
  | 'b' => some '\x08'
  | 't' => some '\t'
  | 'n' => some '\n'
  | 'f' => some '\x0c'
  | 'r' => some '\r'
  | 'e' => some '\x1b'
  | '"' => some '"'
  | '\\' => some '\\'
  | _ => none

def codePoint? (digits : List Char) : Option Char :=
  match digits.mapM (Scalar.digitValue? 16) with
  | none => none
  | some ds =>
      let n := Scalar.ofDigits 16 ds
      if n.isValidChar then some (Char.ofNat n) else none

/-- An escape: the character it stands for, and how many characters it takes behind the backslash. -/
def escape? (cs : List Char) : Option (Char × Nat) :=
  match cs with
  | 'x' :: rest => if rest.length < 2 then none else (codePoint? (rest.take 2)).map (·, 3)
  | 'u' :: rest => if rest.length < 4 then none else (codePoint? (rest.take 4)).map (·, 5)
  | 'U' :: rest => if rest.length < 8 then none else (codePoint? (rest.take 8)).map (·, 9)
  | c :: _ => (escapeValue? c).map (·, 1)
  | [] => none

def prepend (c : Char) (read : Option (List Char × List Char)) : Option (List Char × List Char) :=
  read.map fun (text, rest) => (c :: text, rest)

/-- Reads a basic string on one line; `skip` characters still belong to an escape. -/
def basic (skip : Nat) (cs : List Char) : Option (List Char × List Char) :=
  match cs, skip with
  | [], _ => none
  | _ :: cs, skip + 1 => basic skip cs
  | '"' :: cs, 0 => some ([], cs)
  | '\\' :: cs, 0 =>
      match escape? cs with
      | some (c, taken) => prepend c (basic taken cs)
      | none => none
  | c :: cs, 0 => if isPlain c then prepend c (basic 0 cs) else none

def literal (cs : List Char) : Option (List Char × List Char) :=
  match cs with
  | [] => none
  | '\'' :: cs => some ([], cs)
  | c :: cs => if isPlain c then prepend c (literal cs) else none

def startsBreak (cs : List Char) : Bool :=
  match cs with
  | '\n' :: _ => true
  | '\r' :: '\n' :: _ => true
  | _ => false

/-- The text without a line break at its start. -/
def dropBreak (cs : List Char) : List Char :=
  match cs with
  | '\n' :: rest => rest
  | '\r' :: '\n' :: rest => rest
  | _ => cs

/-- Whether a character is a blank within a line. -/
def isSpace (c : Char) : Bool :=
  c == ' ' || c == '\t'

/-- Closing marks of a string on several lines: up to two more marks belong to the text. -/
def closing (mark : Char) (cs : List Char) : Option (List Char × List Char) :=
  match cs with
  | a :: b :: rest =>
      if a = mark then
        if b = mark then some ([mark, mark], rest) else some ([mark], b :: rest)
      else some ([], cs)
  | [a] => if a = mark then some ([mark], []) else some ([], cs)
  | [] => some ([], [])

/--
Reads a basic string on several lines.  `skip` characters still belong to an escape; `joining`
says that blanks and line breaks are dropped up to the next other character.
-/
def basicLines (skip : Nat) (joining : Bool) (cs : List Char) : Option (List Char × List Char) :=
  match cs, skip with
  | [], _ => none
  | _ :: cs, skip + 1 => basicLines skip false cs
  | '"' :: '"' :: '"' :: cs, 0 => closing '"' cs
  | '\\' :: cs, 0 =>
      if startsBreak (cs.dropWhile isSpace) then basicLines 0 true cs
      else
        match escape? cs with
        | some (c, taken) => prepend c (basicLines taken false cs)
        | none => none
  | '\r' :: cs, 0 =>
      if !startsBreak cs then none
      else if joining then basicLines 0 true cs
      else prepend '\r' (basicLines 0 false cs)
  | c :: cs, 0 =>
      if joining && (isSpace c || c == '\n') then basicLines 0 true cs
      else if c == '\n' || isPlain c then prepend c (basicLines 0 false cs)
      else none

def literalLines (cs : List Char) : Option (List Char × List Char) :=
  match cs with
  | [] => none
  | '\'' :: '\'' :: '\'' :: cs => closing '\'' cs
  | '\r' :: cs => if startsBreak cs then prepend '\r' (literalLines cs) else none
  | c :: cs => if c == '\n' || isPlain c then prepend c (literalLines cs) else none

/-- Reads a string on one line with its opening mark. -/
def onOneLine (cs : List Char) : Option (List Char × List Char) :=
  match cs with
  | '"' :: cs => basic 0 cs
  | '\'' :: cs => literal cs
  | _ => none

/-- Reads a string of any form with its opening marks. -/
def read (cs : List Char) : Option (List Char × List Char) :=
  match cs with
  | '"' :: '"' :: '"' :: cs => basicLines 0 false (dropBreak cs)
  | '\'' :: '\'' :: '\'' :: cs => literalLines (dropBreak cs)
  | cs => onOneLine cs

end Quotation
end Toml
end VerifierSession
