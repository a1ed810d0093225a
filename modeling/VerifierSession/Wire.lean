import VerifierSession.Diagnostic
import VerifierSession.Json.Record
import VerifierSession.Text.Blank

/-!
# Records of the verifier

A line of the verifier's output is a JSON record with a level and a message, or a tag and a record
in the form `JSON-<tag>-<record>`.

* `decode` reads a line into a `Report`: a finding, or a message about the run as a whole;
* a line that is no record is `Malformed`, with the line itself and the reason.
-/

namespace VerifierSession
namespace Wire

open Json (Field Value)

/-- What a message about the run as a whole means for it. -/
inductive StreamClass where
  | fatal
  | warning
  | informational
  deriving DecidableEq, Repr

inductive Report where
  | diagnostic (d : Diagnostic)
  | stream (cls : StreamClass) (name description : String)
  deriving DecidableEq, Repr

inductive Reason where
  | noBody
  | unreadable (tag : Option String) (fault : Json.Fault)
  | unknownLevel (level : String)
  deriving DecidableEq, Repr

def Reason.text : Reason → String
  | noBody => "tagged record without body"
  | unreadable none fault => "invalid record: " ++ fault.message
  | unreadable (some tag) fault => "invalid " ++ tag ++ " record: " ++ fault.message
  | unknownLevel level => "unknown level '" ++ level ++ "'"

structure Malformed where
  raw : String
  reason : Reason
  deriving DecidableEq, Repr

/-! ## The fields of the records -/

def required (name : String) (read : Json.Reader Value) : Field :=
  ⟨name, read, none, none⟩

/-- A field that may be `null` or missing in an object, but not in a list. -/
def optional (name : String) (read : Json.Reader Value) : Field :=
  ⟨name, Json.readNullable read, some .null, none⟩

/-- A field that may be `null` or missing in either form. -/
def omissible (name : String) (read : Json.Reader Value) : Field :=
  ⟨name, Json.readNullable read, some .null, some .null⟩

def extraFields : List Field :=
  [optional "offsetLeft" Json.readInteger, optional "offsetRight" Json.readInteger,
   optional "title" Json.readText, optional "quantifiersRemoved" Json.readInteger,
   optional "whileRule" Json.readText]

def readExtra : Json.Reader Value := fun c => do
  let (items, c) ← Json.readRecord "struct WireExtra" extraFields c
  return (.record items, c)

def findingFields : List Field :=
  [required "level" Json.readText, omissible "timestamp" Json.readText,
   required "message" Json.readText, omissible "extra" readExtra]

def codeErrorFields : List Field :=
  [required "name" Json.readText, required "code" Json.readInteger,
   required "pos" Json.readInteger, required "descr" Json.readText]

def streamFields : List Field :=
  [omissible "name" Json.readText, required "descr" Json.readText]

/-! ## From fields to reports -/

def textOf? : Value → Option String
  | .text s => some s
  | _ => none

def integerOf? : Value → Option Int
  | .integer n => some n
  | _ => none

def textOf (v : Value) : String :=
  (textOf? v).getD ""

def integerOf (v : Value) : Int :=
  (integerOf? v).getD 0

structure Extra where
  left : Option Int
  right : Option Int
  title : Option String
  quantifiersRemoved : Option Int
  whileRule : Option String
  deriving DecidableEq, Repr

def extraOf? : Value → Option Extra
  | .record [left, right, title, quantifiers, rule] =>
      some ⟨integerOf? left, integerOf? right, textOf? title, integerOf? quantifiers, textOf? rule⟩
  | _ => none

/--
The attributes of a finding.  A position needs both offsets, and a title without one stands
alone; a count that is not positive says nothing.
-/
def Extra.attributes (extra : Extra) : List Attribute :=
  let anchor :=
    match extra.left, extra.right with
    | some left, some right => [Attribute.positioned left right extra.title]
    | _, _ => extra.title.toList.map Attribute.title
  let quantifiers :=
    match extra.quantifiersRemoved with
    | some count => if 0 < count then [Attribute.quantifiers count.toNat] else []
    | none => []
  anchor ++ quantifiers ++ extra.whileRule.toList.map Attribute.rule

/-- The finding of an untagged record, or the level that is none. -/
def findingOf (level timestamp message extra : Value) : Except String Diagnostic :=
  match Severity.ofTag? (textOf level) with
  | none => .error (textOf level)
  | some severity =>
      .ok ⟨severity, textOf message, textOf? timestamp,
        ((extraOf? extra).map Extra.attributes).getD [], none⟩

def codeErrorOf (name code pos descr : Value) : Diagnostic :=
  ⟨.error, textOf descr, none,
   [.word (integerOf pos),
    .title (textOf name ++ " (code " ++ toString (integerOf code) ++ ")")],
   none⟩

/-- What a tag other than that of a code error means for the run. -/
def classOf (tag : String) : StreamClass :=
  if tag = "ERS" then .fatal else if tag = "WRN" then .warning else .informational

def decodeFinding (body : List Char) : Except Reason Report :=
  match Json.readWhole (Json.readRecord "struct WireRecord" findingFields) body with
  | .error fault => .error (.unreadable none fault)
  | .ok [level, timestamp, message, extra] =>
      match findingOf level timestamp message extra with
      | .ok d => .ok (.diagnostic d)
      | .error level => .error (.unknownLevel level)
  | .ok _ => .error .noBody

def decodeCodeError (body : List Char) : Except Reason Report :=
  match Json.readWhole (Json.readRecord "struct CodeError" codeErrorFields) body with
  | .error fault => .error (.unreadable (some "ERC") fault)
  | .ok [name, code, pos, descr] => .ok (.diagnostic (codeErrorOf name code pos descr))
  | .ok _ => .error .noBody

/-- Reads a message about the run; without a name it goes by its tag. -/
def decodeStream (tag : String) (body : List Char) : Except Reason Report :=
  match Json.readWhole (Json.readRecord "struct StreamRecord" streamFields) body with
  | .error fault => .error (.unreadable (some tag) fault)
  | .ok [name, descr] => .ok (.stream (classOf tag) ((textOf? name).getD tag) (textOf descr))
  | .ok _ => .error .noBody

/-- Reads what follows the mark of a tagged record: a tag, a hyphen and a record. -/
def decodeTagged (rest : List Char) : Except Reason Report :=
  let tag := rest.takeWhile (· != '-')
  match rest.dropWhile (· != '-') with
  | [] => .error .noBody
  | _ :: body =>
      if tag = ['E', 'R', 'C'] then decodeCodeError body
      else decodeStream (String.ofList tag) body

def tagMark : List Char :=
  "JSON-".toList

def decodeTrimmed (line : List Char) : Except Reason Report :=
  if tagMark.isPrefixOf line then decodeTagged (line.drop tagMark.length)
  else decodeFinding line

def decode (line : String) : Except Malformed Report :=
  match decodeTrimmed (Text.trim line.toList) with
  | .ok report => .ok report
  | .error reason => .error ⟨line, reason⟩

end Wire
end VerifierSession
