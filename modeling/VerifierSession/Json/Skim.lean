import VerifierSession.Json.Quotation

/-!
# Passing over a value

A value nobody asked for is passed over with its grammar checked and nothing else: numbers may be
of any size, and surrogates need not be paired.  The check is a machine with a stack of open
brackets that reads one character at a time, so nesting costs no depth.

* `Skim.Awaiting` is what may come next, `Skim.step` reads one character;
* a number ends only before the character behind it, every other value on its last character;
* `skimValue` passes over one value.
-/

namespace VerifierSession
namespace Json
namespace Skim

inductive Frame where
  | list
  | object
  deriving DecidableEq, Repr

/-- The part of a number that was read last. -/
inductive Digits where
  | minus
  | zero
  | whole
  | point
  | fraction
  | mark
  | sign
  | power
  deriving DecidableEq, Repr

inductive Awaiting where
  | value
  | word (rest : List Char)
  | number (part : Digits)
  | text (isKey : Bool) (state : Quotation.State)
  | first (frame : Frame)
  | key
  | colon
  | more (frame : Frame)
  deriving DecidableEq, Repr

/-- What one character brings: the machine goes on, or the value ended on or before it. -/
inductive Move where
  | on (awaiting : Awaiting) (stack : List Frame)
  | ended
  | endedBefore
  deriving DecidableEq, Repr

/-- The part of a number that a character extends it to. -/
def Digits.extend? (part : Digits) (c : Char) : Option Digits :=
  match part with
  | .minus => if c = '0' then some .zero else if isDigit c then some .whole else none
  | .zero => if c = '.' then some .point else if c = 'e' ∨ c = 'E' then some .mark else none
  | .whole =>
      if isDigit c then some .whole
      else if c = '.' then some .point
      else if c = 'e' ∨ c = 'E' then some .mark
      else none
  | .point => if isDigit c then some .fraction else none
  | .fraction =>
      if isDigit c then some .fraction else if c = 'e' ∨ c = 'E' then some .mark else none
  | .mark =>
      if isDigit c then some .power else if c = '+' ∨ c = '-' then some .sign else none
  | .sign => if isDigit c then some .power else none
  | .power => if isDigit c then some .power else none

def Digits.isWhole : Digits → Bool
  | .zero | .whole | .fraction | .power => true
  | .minus | .point | .mark | .sign => false

/-- After a value that ended on a character: what encloses it, if anything does. -/
def close (stack : List Frame) : Move :=
  match stack with
  | [] => .ended
  | frame :: _ => .on (.more frame) stack

def startValue (stack : List Frame) (p : Place) (c : Char) : Except Fault Move :=
  match c with
  | 'n' => .ok (.on (.word ['u', 'l', 'l']) stack)
  | 't' => .ok (.on (.word ['r', 'u', 'e']) stack)
  | 'f' => .ok (.on (.word ['a', 'l', 's', 'e']) stack)
  | '-' => .ok (.on (.number .minus) stack)
  | '"' => .ok (.on (.text false .plain) stack)
  | '[' => .ok (.on (.first .list) (.list :: stack))
  | '\x7b' => .ok (.on (.first .object) (.object :: stack))
  | '0' => .ok (.on (.number .zero) stack)
  | c =>
      if isDigit c then .ok (.on (.number .whole) stack)
      else .error ⟨.expectedValue, p.onto c⟩

def startKey (stack : List Frame) (p : Place) (c : Char) : Except Fault Move :=
  if c = '"' then .ok (.on (.text true .plain) stack) else .error ⟨.keyNotText, p.onto c⟩

def Frame.closedBy (frame : Frame) (c : Char) : Bool :=
  match frame with
  | .list => c == ']'
  | .object => c == '\x7d'

def afterValue (frame : Frame) (stack : List Frame) (p : Place) (c : Char) : Except Fault Move :=
  if frame.closedBy c then .ok (close stack.tail)
  else if c = ',' then
    .ok (.on (match frame with | .list => .value | .object => .key) stack)
  else if isJsonBlank c then .ok (.on (.more frame) stack)
  else
    .error ⟨match frame with | .list => .expectedListEnd | .object => .expectedObjectEnd, p.onto c⟩

def step (awaiting : Awaiting) (stack : List Frame) (p : Place) (c : Char) : Except Fault Move :=
  match awaiting with
  | .value => if isJsonBlank c then .ok (.on .value stack) else startValue stack p c
  | .word rest =>
      match rest with
      | [] => .error ⟨.expectedWord, p.onto c⟩
      | expected :: rest =>
          if c = expected then .ok (if rest.isEmpty then close stack else .on (.word rest) stack)
          else .error ⟨.expectedWord, p.onto c⟩
  | .number part =>
      match part.extend? c with
      | some part => .ok (.on (.number part) stack)
      | none =>
          if !part.isWhole || (part == .zero && isDigit c) then .error ⟨.invalidNumber, p.onto c⟩
          else
            match stack with
            | [] => .ok .endedBefore
            | frame :: _ => afterValue frame stack p c
  | .text isKey state =>
      match Quotation.step false p state c with
      | .error fault => .error fault
      | .ok .closed => .ok (if isKey then .on .colon stack else close stack)
      | .ok (.inside state _) => .ok (.on (.text isKey state) stack)
  | .first frame =>
      if frame.closedBy c then .ok (close stack.tail)
      else if isJsonBlank c then .ok (.on (.first frame) stack)
      else
        match frame with
        | .list => startValue stack p c
        | .object => startKey stack p c
  | .key => if isJsonBlank c then .ok (.on .key stack) else startKey stack p c
  | .colon =>
      if isJsonBlank c then .ok (.on .colon stack)
      else if c = ':' then .ok (.on .value stack)
      else .error ⟨.expectedColon, p.onto c⟩
  | .more frame => afterValue frame stack p c

def Frame.cause : Frame → Cause
  | .list => .endInList
  | .object => .endInObject

def finish (awaiting : Awaiting) (stack : List Frame) (p : Place) : Except Fault Cursor :=
  match awaiting with
  | .value => .error ⟨.endInValue, p⟩
  | .word _ => .error ⟨.endInValue, p⟩
  | .number part =>
      if part.isWhole then
        match stack with
        | [] => .ok ⟨[], p⟩
        | frame :: _ => .error ⟨frame.cause, p⟩
      else .error ⟨.invalidNumber, p⟩
  | .text .. => .error ⟨.endInText, p⟩
  | .first frame | .more frame => .error ⟨frame.cause, p⟩
  | .key | .colon => .error ⟨.endInObject, p⟩

def run (awaiting : Awaiting) (stack : List Frame) (cs : List Char) (p : Place) :
    Except Fault Cursor :=
  match cs with
  | [] => finish awaiting stack p
  | c :: cs =>
      match step awaiting stack p c with
      | .error fault => .error fault
      | .ok (.on awaiting stack) => run awaiting stack cs (p.past c)
      | .ok .ended => .ok ⟨cs, p.past c⟩
      | .ok .endedBefore => .ok ⟨c :: cs, p⟩

end Skim

def skimValue (c : Cursor) : Except Fault Cursor :=
  Skim.run .value [] c.rest c.place

end Json
end VerifierSession
