import VerifierSession.Json.Numeral
import VerifierSession.Json.Skim

/-!
# Records with known fields

A record is read against the list of its fields.  It is written as an object, with its members in
any order and others between them, or as a list of the fields' values in their order.

* `Field.unnamed` is the value of a field that no member names, `Field.unlisted` the one that a
  list ends before; a field without such a value must be there;
* `readRecord` reads a record in either form, and faults come up in reading order;
* `readWhole` lets nothing but white space follow.
-/

namespace VerifierSession
namespace Json

inductive Value where
  | null
  | text (s : String)
  | integer (n : Int)
  | record (items : List Value)

/-! ## Values of one kind -/

/-- The fault that the value at a cursor is of another kind; a malformed value is worse. -/
def mismatch (expected : String) (c : Cursor) : Fault :=
  let wrong (found : Unexpected) (behind : Cursor) : Fault :=
    behind.reject (.wrongType found expected)
  let number (minus : Bool) (c : Cursor) : Fault :=
    match readNumeral minus c with
    | .ok (n, behind) => wrong n.found behind
    | .error fault => fault
  let word (rest : List Char) (found : Unexpected) : Fault :=
    match c.advance.word rest with
    | .ok behind => wrong found behind
    | .error fault => fault
  match c.rest with
  | 'n' :: _ => word ['u', 'l', 'l'] .null
  | 't' :: _ => word ['r', 'u', 'e'] (.boolean true)
  | 'f' :: _ => word ['a', 'l', 's', 'e'] (.boolean false)
  | '-' :: _ => number true c.advance
  | '"' :: _ =>
      match readQuotation c.advance with
      | .ok (s, behind) => wrong (.text s) behind
      | .error fault => fault
  | '[' :: _ => wrong .list c
  | '\x7b' :: _ => wrong .object c
  | ch :: _ => if isDigit ch then number false c else c.refuse .expectedValue
  | [] => c.refuse .expectedValue

def readText : Reader Value := fun c => do
  let c := c.skipBlank
  match c.rest with
  | [] => throw (c.refuse .endInValue)
  | '"' :: _ =>
      let (s, behind) ← readQuotation c.advance
      return (.text s, behind)
  | _ => throw (mismatch "a string" c)

/-- The integer a number stands for, if it has 64 bits with a sign. -/
def integerOf (n : Numeral) (behind : Cursor) : Except Fault (Value × Cursor) :=
  match n with
  | .natural n =>
      if n < Decimal.twoTo 63 then .ok (.integer n, behind)
      else .error (behind.reject (.wrongValue (.natural n) "i64"))
  | .negative n => .ok (.integer (-(n : Int)), behind)
  | real => .error (behind.reject (.wrongType real.found "i64"))

/-- Reads an integer of 64 bits. -/
def readInteger : Reader Value := fun c =>
  let c := c.skipBlank
  let number (minus : Bool) (c : Cursor) : Except Fault (Value × Cursor) := do
    let (n, behind) ← readNumeral minus c
    integerOf n behind
  match c.rest with
  | [] => throw (c.refuse .endInValue)
  | '-' :: _ => number true c.advance
  | ch :: _ => if isDigit ch then number false c else throw (mismatch "i64" c)

def readNullable (read : Reader Value) : Reader Value := fun c => do
  let c := c.skipBlank
  match c.rest with
  | 'n' :: _ =>
      let behind ← c.advance.word ['u', 'l', 'l']
      return (.null, behind)
  | _ => read c

/-! ## Fields -/

structure Field where
  name : String
  read : Reader Value
  unnamed : Option Value
  unlisted : Option Value

/-- The field with a name, and its index. -/
def findField? (fields : List Field) (name : String) : Option (Nat × Field) :=
  match fields with
  | [] => none
  | field :: rest =>
      if field.name = name then some (0, field)
      else (findField? rest name).map fun (i, found) => (i + 1, found)

/-- The values of the slots, or the first field that lacks one. -/
def fill (fields : List Field) (slots : List (Option Value)) : Except String (List Value) :=
  match fields, slots with
  | field :: fields, slot :: slots =>
      match slot.or field.unnamed with
      | none => throw field.name
      | some v => do
          let vs ← fill fields slots
          return v :: vs
  | _, _ => return []

/-- Where a record that was given up is left: behind its closing bracket, if that comes next. -/
def leave (close : Char) (c : Cursor) : Cursor :=
  let c := c.skipBlank
  match c.rest with
  | ch :: _ => if ch = close then c.advance else c
  | [] => c

/-! ## Objects -/

/-- The name of the next member, or `none` before the closing bracket. -/
def nextName (first : Bool) : Reader (Option String) := fun c =>
  let c := c.skipBlank
  let name (c : Cursor) : Except Fault (Option String × Cursor) := do
    let (s, behind) ← readQuotation c.advance
    return (some s, behind)
  match c.rest with
  | [] => throw (c.refuse .endInObject)
  | '\x7d' :: _ => return (none, c)
  | ch :: _ =>
      if first then
        if ch = '"' then name c else throw (c.refuse .keyNotText)
      else if ch = ',' then
        let c := c.advance.skipBlank
        match c.rest with
        | [] => throw (c.refuse .endInValue)
        | '"' :: _ => name c
        | '\x7d' :: _ => throw (c.refuse .trailingComma)
        | _ => throw (c.refuse .keyNotText)
      else throw (c.refuse .expectedObjectEnd)

def readColon (c : Cursor) : Except Fault Cursor :=
  let c := c.skipBlank
  match c.rest with
  | [] => throw (c.refuse .endInObject)
  | ':' :: _ => return c.advance
  | _ => throw (c.refuse .expectedColon)

/--
Reads members up to the closing bracket into the slots of their fields.  A member takes at least
one character, so as many steps as there are characters are enough.
-/
def readMembers (fields : List Field) (steps : Nat) (first : Bool) (slots : List (Option Value)) :
    Reader (List (Option Value)) := fun c =>
  match steps with
  | 0 => throw (c.refuse .endInObject)
  | steps + 1 => do
      match ← nextName first c with
      | (none, c) => return (slots, c)
      | (some name, c) =>
          match findField? fields name with
          | none =>
              let c ← readColon c
              let c ← skimValue c
              readMembers fields steps false slots c
          | some (i, field) =>
              if slots[i]?.join.isSome then
                throw ((leave '\x7d' c).reject (.duplicateField name))
              else
                let c ← readColon c
                let (v, c) ← field.read c
                readMembers fields steps false (slots.set i (some v)) c

/-- Reads an object whose opening bracket has been read. -/
def readObject (fields : List Field) : Reader (List Value) := fun c => do
  let (slots, c) ← readMembers fields (c.rest.length + 1) true (fields.map fun _ => none) c
  match fill fields slots with
  | .error name => throw ((leave '\x7d' c).reject (.missingField name))
  | .ok values => return (values, leave '\x7d' c)

/-! ## Lists -/

/-- Whether an item comes next; if not, the closing bracket does. -/
def nextItem (first : Bool) : Reader Bool := fun c =>
  let c := c.skipBlank
  match c.rest with
  | [] => throw (c.refuse .endInList)
  | ']' :: _ => return (false, c)
  | ch :: _ =>
      if first then return (true, c)
      else if ch = ',' then
        let c := c.advance.skipBlank
        match c.rest with
        | [] => throw (c.refuse .endInValue)
        | ']' :: _ => throw (c.refuse .trailingComma)
        | _ => return (true, c)
      else throw (c.refuse .expectedListEnd)

/-- Reads the items of the fields in turn; the index counts the fields before. -/
def readItems (expected : String) (fields : List Field) (index : Nat) : Reader (List Value) :=
  fun c =>
    match fields with
    | [] => return ([], c)
    | field :: fields => do
        let (more, c) ← nextItem (index == 0) c
        let (v, c) ←
          if more then field.read c
          else
            match field.unlisted with
            | some v => pure (v, c)
            | none => throw ((leave ']' c).reject (.wrongLength index expected))
        let (vs, c) ← readItems expected fields (index + 1) c
        return (v :: vs, c)

def closeList (c : Cursor) : Except Fault Cursor :=
  let c := c.skipBlank
  match c.rest with
  | [] => throw (c.refuse .endInList)
  | ']' :: _ => return c.advance
  | ',' :: _ =>
      let c := c.advance.skipBlank
      match c.rest with
      | ']' :: _ => throw (c.refuse .trailingComma)
      | _ => throw (c.refuse .trailingCharacters)
  | _ => throw (c.refuse .trailingCharacters)

/-- Reads a list whose opening bracket has been read. -/
def readList (title : String) (fields : List Field) : Reader (List Value) := fun c => do
  let expected := title ++ " with " ++ toString fields.length ++ " elements"
  let (values, c) ← readItems expected fields 0 c
  let c ← closeList c
  return (values, c)

/-! ## Records -/

/-- Reads a record in either form. -/
def readRecord (title : String) (fields : List Field) : Reader (List Value) := fun c =>
  let c := c.skipBlank
  match c.rest with
  | [] => throw (c.refuse .endInValue)
  | '[' :: _ => readList title fields c.advance
  | '\x7b' :: _ => readObject fields c.advance
  | _ => throw (mismatch title c)

def readWhole {α : Type} (read : Reader α) (cs : List Char) : Except Fault α := do
  let (value, c) ← read (.start cs)
  let c := c.skipBlank
  if c.rest.isEmpty then return value else throw (c.refuse .trailingCharacters)

end Json
end VerifierSession
