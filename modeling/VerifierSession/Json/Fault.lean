import VerifierSession.Text.Quoted

/-!
# Places and faults of a JSON text

A place counts lines from one and, within a line, the bytes read since the last line break.  A
fault is the first thing wrong with a text, with the place where reading stopped.

* `Place.past`, `Place.onto` are the places after a character and on its first byte;
* `Cause` is what was wrong, `Cause.text` says it;
* `Fault.message` adds the place.
-/

namespace VerifierSession
namespace Json

/-- A line, counted from one, and the bytes read on it. -/
structure Place where
  line : Nat
  column : Nat
  deriving DecidableEq, Repr

namespace Place

def start : Place :=
  ⟨1, 0⟩

/-- After reading some bytes of a character; a line break is one byte long. -/
def into (p : Place) (c : Char) (size : Nat) : Place :=
  if c = '\n' then ⟨p.line + 1, 0⟩ else ⟨p.line, p.column + size⟩

def past (p : Place) (c : Char) : Place :=
  p.into c c.utf8Size

/-- On a character: after its first byte. -/
def onto (p : Place) (c : Char) : Place :=
  p.into c 1

end Place

/-- A value of a kind that was not asked for. -/
inductive Unexpected where
  | null
  | boolean (b : Bool)
  | natural (n : Nat)
  | negative (n : Nat)
  | real (shown : String)
  | text (s : String)
  | list
  | object
  deriving DecidableEq, Repr

def Unexpected.label : Unexpected → String
  | null => "null"
  | boolean true => "boolean `true`"
  | boolean false => "boolean `false`"
  | natural n => "integer `" ++ toString n ++ "`"
  | negative n => "integer `-" ++ toString n ++ "`"
  | real shown => "floating point `" ++ shown ++ "`"
  | text s => "string " ++ Text.quoted s
  | list => "sequence"
  | object => "map"

inductive Cause where
  | endInValue
  | endInList
  | endInObject
  | endInText
  | expectedValue
  | expectedWord
  | expectedColon
  | expectedListEnd
  | expectedObjectEnd
  | keyNotText
  | trailingComma
  | trailingCharacters
  | invalidNumber
  | numberOutOfRange
  | invalidEscape
  | controlCharacter
  | loneSurrogate
  | unfinishedSurrogate
  | wrongType (found : Unexpected) (expected : String)
  | wrongValue (found : Unexpected) (expected : String)
  | missingField (name : String)
  | duplicateField (name : String)
  | wrongLength (length : Nat) (expected : String)
  deriving DecidableEq, Repr

def Cause.text : Cause → String
  | endInValue => "EOF while parsing a value"
  | endInList => "EOF while parsing a list"
  | endInObject => "EOF while parsing an object"
  | endInText => "EOF while parsing a string"
  | expectedValue => "expected value"
  | expectedWord => "expected ident"
  | expectedColon => "expected `:`"
  | expectedListEnd => "expected `,` or `]`"
  | expectedObjectEnd => "expected `,` or `\x7d`"
  | keyNotText => "key must be a string"
  | trailingComma => "trailing comma"
  | trailingCharacters => "trailing characters"
  | invalidNumber => "invalid number"
  | numberOutOfRange => "number out of range"
  | invalidEscape => "invalid escape"
  | controlCharacter => "control character (\\u0000-\\u001F) found while parsing a string"
  | loneSurrogate => "lone leading surrogate in hex escape"
  | unfinishedSurrogate => "unexpected end of hex escape"
  | wrongType found expected => "invalid type: " ++ found.label ++ ", expected " ++ expected
  | wrongValue found expected => "invalid value: " ++ found.label ++ ", expected " ++ expected
  | missingField name => "missing field `" ++ name ++ "`"
  | duplicateField name => "duplicate field `" ++ name ++ "`"
  | wrongLength length expected =>
      "invalid length " ++ toString length ++ ", expected " ++ expected

/-- The first thing wrong with a text, and where. -/
structure Fault where
  cause : Cause
  place : Place
  deriving DecidableEq, Repr

def Fault.message (f : Fault) : String :=
  f.cause.text ++ " at line " ++ toString f.place.line ++ " column " ++ toString f.place.column

end Json
end VerifierSession
