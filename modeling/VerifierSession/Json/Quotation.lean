import VerifierSession.Json.Cursor

/-!
# JSON strings

The characters between two quotation marks are read one at a time.  An escape with four
hexadecimal digits takes the four bytes behind its `u` whatever they are, and is judged when it
has them.

* `Quotation.State` is where the reader stands: on plain text, in an escape, between the two
  halves of a surrogate pair;
* `Quotation.step` reads one character; in strict reading surrogates must be paired, and a
  control character is counted as read before it is refused;
* `readQuotation` reads a string whose opening mark has been read.
-/

namespace VerifierSession
namespace Json

def hexValue? (c : Char) : Option Nat :=
  if isDigit c then some (digitValue c)
  else if 'a' ≤ c ∧ c ≤ 'f' then some (c.toNat - 'a'.toNat + 10)
  else if 'A' ≤ c ∧ c ≤ 'F' then some (c.toNat - 'A'.toNat + 10)
  else none

/-- The character that a backslash and a letter stand for. -/
def escapeValue? (c : Char) : Option Char :=
  match c with
  | '"' => some '"'
  | '\\' => some '\\'
  | '/' => some '/'
  | 'b' => some '\x08'
  | 'f' => some '\x0c'
  | 'n' => some '\n'
  | 'r' => some '\r'
  | 't' => some '\t'
  | _ => none

namespace Quotation

/--
Where the reader stands inside a string.  In `hex` some bytes of a numeric escape are owed, with
the value so far, if all of it was hexadecimal, and the first half of a pair, if there is one.
-/
inductive State where
  | plain
  | escape
  | hex (owed : Nat) (value : Option Nat) (lead : Option Nat)
  | afterLead (lead : Nat)
  | afterLeadEscape (lead : Nat)
  deriving DecidableEq, Repr

/-- What one character brings: more of the string, or its end. -/
inductive Move where
  | inside (state : State) (settled : Option Char)
  | closed
  deriving DecidableEq, Repr

/-- Whether a code unit is the first half of a surrogate pair. -/
def isLead (n : Nat) : Bool :=
  decide (0xD800 ≤ n) && decide (n ≤ 0xDBFF)

/-- Whether a code unit is the second half of a surrogate pair. -/
def isTrail (n : Nat) : Bool :=
  decide (0xDC00 ≤ n) && decide (n ≤ 0xDFFF)

/-- The character of a surrogate pair. -/
def pairValue (lead trail : Nat) : Char :=
  Char.ofNat ((lead - 0xD800) * 0x400 + (trail - 0xDC00) + 0x10000)

/-- Judges a numeric escape with all its digits read. -/
def settle (strict : Bool) (lead : Option Nat) (value : Nat) : Except Cause Move :=
  if !strict then .ok (.inside .plain none)
  else
    match lead with
    | none =>
        if isTrail value then .error .loneSurrogate
        else if isLead value then .ok (.inside (.afterLead value) none)
        else .ok (.inside .plain (some (Char.ofNat value)))
    | some lead =>
        if isTrail value then .ok (.inside .plain (some (pairValue lead value)))
        else .error .loneSurrogate

def step (strict : Bool) (p : Place) (state : State) (c : Char) : Except Fault Move :=
  match state with
  | .plain =>
      if c = '"' then .ok .closed
      else if c = '\\' then .ok (.inside .escape none)
      else if c.toNat < 0x20 then
        .error ⟨.controlCharacter, if strict then p.onto c else p⟩
      else .ok (.inside .plain (some c))
  | .escape =>
      if c = 'u' then .ok (.inside (.hex 4 (some 0) none) none)
      else
        match escapeValue? c with
        | some out => .ok (.inside .plain (some out))
        | none => .error ⟨.invalidEscape, p.onto c⟩
  | .hex owed value lead =>
      let value :=
        match value, hexValue? c with
        | some v, some d => some (v * 16 + d)
        | _, _ => none
      if c.utf8Size < owed then .ok (.inside (.hex (owed - c.utf8Size) value lead) none)
      else
        match value with
        | none => .error ⟨.invalidEscape, p.into c owed⟩
        | some v =>
            match settle strict lead v with
            | .ok move => .ok move
            | .error cause => .error ⟨cause, p.past c⟩
  | .afterLead lead =>
      if c = '\\' then .ok (.inside (.afterLeadEscape lead) none)
      else .error ⟨.unfinishedSurrogate, p.onto c⟩
  | .afterLeadEscape lead =>
      if c = 'u' then .ok (.inside (.hex 4 (some 0) (some lead)) none)
      else .error ⟨.unfinishedSurrogate, p.onto c⟩

/-- Reads on to the closing mark, from where the reader stands. -/
def readFrom (strict : Bool) (state : State) (cs : List Char) (p : Place) :
    Except Fault (List Char × Cursor) :=
  match cs with
  | [] => .error ⟨.endInText, p⟩
  | c :: cs =>
      match step strict p state c with
      | .error fault => .error fault
      | .ok .closed => .ok ([], ⟨cs, p.past c⟩)
      | .ok (.inside state settled) => do
          let (text, behind) ← readFrom strict state cs (p.past c)
          return (settled.toList ++ text, behind)

end Quotation

/-- Reads a string whose opening mark has been read. -/
def readQuotation : Reader String := fun c => do
  let (text, behind) ← Quotation.readFrom true .plain c.rest c.place
  return (String.ofList text, behind)

end Json
end VerifierSession
