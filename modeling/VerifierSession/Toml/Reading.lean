import VerifierSession.Toml.Quotation

/-!
# Reading TOML

A document is a list of statements, each on lines of its own: a key with a value, the header of a
table, or the header of an element in a list of tables.

* `value` reads a value, `dottedKey` the keys before it;
* `statements` reads a document's text, and `Section.all` gathers what stands below each header;
* `readDocument` is the root table, if the text is a document.

Lists and tables in braces may be spread over lines, with comments, and may end in a comma; they
nest to a fixed depth.
-/

namespace VerifierSession
namespace Toml

/-- How deep lists and tables in braces may nest. -/
def maxDepth : Nat :=
  80

def skipSpaces (cs : List Char) : List Char :=
  cs.dropWhile Quotation.isSpace

/-- The text behind a comment, if one starts here; it cannot hold control characters. -/
def skipComment (cs : List Char) : List Char :=
  match cs with
  | '#' :: rest => rest.dropWhile Quotation.isPlain
  | _ => cs

/-- The text behind blanks, line breaks and comments. -/
def skipFiller (inComment : Bool) (cs : List Char) : List Char :=
  match cs with
  | [] => []
  | '\n' :: rest => skipFiller false rest
  | '\r' :: '\n' :: rest => skipFiller false rest
  | c :: rest =>
      if inComment then if Quotation.isPlain c then skipFiller true rest else c :: rest
      else if Quotation.isSpace c then skipFiller false rest
      else if c = '#' then skipFiller true rest
      else c :: rest

/-! ## Keys -/

def isKeyChar (c : Char) : Bool :=
  c.isAlphanum || c == '_' || c == '-'

def simpleKey (cs : List Char) : Option (String × List Char) :=
  match Quotation.onOneLine cs with
  | some (text, rest) => some (String.ofList text, rest)
  | none =>
      let key := cs.takeWhile isKeyChar
      if key.isEmpty then none else some (String.ofList key, cs.dropWhile isKeyChar)

/-- Keys with dots between them: those before the last, and the last. -/
structure DottedKey where
  path : List String
  last : String
  deriving DecidableEq, Repr

def dottedKeyFrom (fuel : Nat) (cs : List Char) : Option (DottedKey × List Char) :=
  match fuel with
  | 0 => none
  | fuel + 1 => do
      let (key, rest) ← simpleKey cs
      match skipSpaces rest with
      | '.' :: rest => do
          let (below, rest) ← dottedKeyFrom fuel (skipSpaces rest)
          return (⟨key :: below.path, below.last⟩, rest)
      | rest => return (⟨[], key⟩, rest)

/-- Reads keys with dots between them, up to the depth at which tables nest. -/
def dottedKey (cs : List Char) : Option (DottedKey × List Char) :=
  dottedKeyFrom maxDepth cs

/-! ## Values -/

def isWordChar (c : Char) : Bool :=
  isKeyChar c || c == '+' || c == '.' || c == ':'

/-- The word at the start of a text; a date and a time may have one space between them. -/
def word (cs : List Char) : List Char × List Char :=
  let first := cs.takeWhile isWordChar
  match cs.dropWhile isWordChar with
  | ' ' :: d :: rest =>
      if Scalar.date? first = some [] ∧ Scalar.isDigit d = true then
        (first ++ ' ' :: (d :: rest).takeWhile isWordChar, (d :: rest).dropWhile isWordChar)
      else (first, ' ' :: d :: rest)
  | rest => (first, rest)

/-- Reads a value without brackets. -/
def scalar (cs : List Char) : Option (Node × List Char) :=
  match Quotation.read cs with
  | some (text, rest) => some (.text (String.ofList text), rest)
  | none => (Scalar.node? (word cs).1).map fun node => (node, (word cs).2)

abbrev Pair : Type :=
  List String × String × Node

mutual

/-- Reads a value; `depth` more levels of brackets may open. -/
def valueFrom (fuel depth : Nat) (cs : List Char) : Option (Node × List Char) :=
  match fuel with
  | 0 => none
  | fuel + 1 =>
      match cs, depth with
      | '[' :: _, 0 => none
      | '{' :: _, 0 => none
      | '[' :: rest, depth + 1 => do
          let (items, rest) ← elementsFrom fuel depth rest
          return (.list items, rest)
      | '{' :: rest, depth + 1 => do
          let (pairs, rest) ← pairsFrom fuel depth rest
          let members ← Members.insertAll [] pairs
          return (.table .braces members, rest)
      | cs, _ => scalar cs

/-- Reads the rest of a list, behind its opening bracket or a comma. -/
def elementsFrom (fuel depth : Nat) (cs : List Char) : Option (List Node × List Char) :=
  match fuel with
  | 0 => none
  | fuel + 1 =>
      match skipFiller false cs with
      | ']' :: rest => some ([], rest)
      | cs => do
          let (item, rest) ← valueFrom fuel depth cs
          match skipFiller false rest with
          | ']' :: rest => return ([item], rest)
          | ',' :: rest => do
              let (items, rest) ← elementsFrom fuel depth rest
              return (item :: items, rest)
          | _ => none

/-- Reads the rest of a table in braces, behind its opening brace or a comma. -/
def pairsFrom (fuel depth : Nat) (cs : List Char) : Option (List Pair × List Char) :=
  match fuel with
  | 0 => none
  | fuel + 1 =>
      match skipFiller false cs with
      | '\x7d' :: rest => some ([], rest)
      | cs => do
          let (pair, rest) ← pairFrom fuel depth cs
          match skipFiller false rest with
          | '\x7d' :: rest => return ([pair], rest)
          | ',' :: rest => do
              let (pairs, rest) ← pairsFrom fuel depth rest
              return (pair :: pairs, rest)
          | _ => none

def pairFrom (fuel depth : Nat) (cs : List Char) : Option (Pair × List Char) :=
  match fuel with
  | 0 => none
  | fuel + 1 => do
      let (key, rest) ← dottedKey cs
      match skipSpaces rest with
      | '=' :: rest => do
          let (node, rest) ← valueFrom fuel depth (skipSpaces rest)
          return ((key.path, key.last, node), rest)
      | _ => none

end

/-- Steps that suffice to read any value or pair of a text: a bracket, key or comma takes three. -/
def steps (cs : List Char) : Nat :=
  3 * cs.length + 3

def pair (cs : List Char) : Option (Pair × List Char) :=
  pairFrom (steps cs) maxDepth cs

/-! ## Documents -/

inductive Statement where
  | pair (p : Pair)
  | table (key : DottedKey)
  | element (key : DottedKey)

def expect (mark cs : List Char) : Option (List Char) :=
  if mark.isPrefixOf cs then some (cs.drop mark.length) else none

def statement (cs : List Char) : Option (Statement × List Char) :=
  match cs with
  | '[' :: '[' :: rest => do
      let (key, rest) ← dottedKey (skipSpaces rest)
      let rest ← expect [']', ']'] (skipSpaces rest)
      return (.element key, rest)
  | '[' :: rest => do
      let (key, rest) ← dottedKey (skipSpaces rest)
      let rest ← expect [']'] (skipSpaces rest)
      return (.table key, rest)
  | cs => do
      let (p, rest) ← pair cs
      return (.pair p, rest)

/-- What follows a statement: nothing but blanks and a comment up to the end of its line. -/
def lineEnd (cs : List Char) : Option (List Char) :=
  let rest := skipComment (skipSpaces cs)
  if rest.isEmpty || Quotation.startsBreak rest then some rest else none

def statementsFrom (fuel : Nat) (cs : List Char) : Option (List Statement) :=
  match fuel with
  | 0 => none
  | fuel + 1 =>
      match skipFiller false cs with
      | [] => some []
      | cs => do
          let (first, rest) ← statement cs
          let rest ← lineEnd rest
          let more ← statementsFrom fuel rest
          return first :: more

/-- Reads the statements of a document; a byte order mark before them is passed over. -/
def statements (cs : List Char) : Option (List Statement) :=
  match cs with
  | '\uFEFF' :: rest => statementsFrom (rest.length + 1) rest
  | _ => statementsFrom (cs.length + 1) cs

structure Section where
  header : DottedKey
  isElement : Bool
  pairs : List Pair

/-- The pairs before the first header, and the sections. -/
def Section.all : List Statement → List Pair × List Section
  | [] => ([], [])
  | .pair p :: rest =>
      let (pairs, sections) := Section.all rest
      (p :: pairs, sections)
  | .table key :: rest =>
      let (pairs, sections) := Section.all rest
      ([], ⟨key, false, pairs⟩ :: sections)
  | .element key :: rest =>
      let (pairs, sections) := Section.all rest
      ([], ⟨key, true, pairs⟩ :: sections)

def Section.addTo (members : Members) (s : Section) : Option Members :=
  if s.isElement then members.addElement s.header.path s.header.last s.pairs
  else members.openTable s.header.path s.header.last s.pairs

/-- The root table that statements describe, if they agree with one another. -/
def build (all : List Statement) : Option Members := do
  let (pairs, sections) := Section.all all
  let root ← Members.insertAll [] pairs
  sections.foldlM Section.addTo root

def readDocument (text : List Char) : Option Members :=
  (statements text).bind build

end Toml
end VerifierSession
