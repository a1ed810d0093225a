import VerifierSession.Document.Snapshot
import VerifierSession.Path
import VerifierSession.Severity

/-!
# Diagnostics

A finding of the verifier: a severity, a message and attributes that say where it belongs and
what to show with it.

* `Diagnostic.render` is the text shown, `Diagnostic.display` puts path and position before it;
* `Diagnostic.anchor` places a finding in a document by its first attribute with a position.
-/

namespace VerifierSession

inductive Attribute where
  | positioned (left right : Int) (title : Option String)
  | word (offset : Int)
  | title (title : String)
  | quantifiers (count : Nat)
  | rule (name : String)
  deriving DecidableEq, Repr

/-- A finding; the span is where it was placed in its document, if it was. -/
structure Diagnostic where
  severity : Severity
  message : String
  timestamp : Option String
  attributes : List Attribute
  span : Option Span := none
  deriving DecidableEq, Repr

namespace Diagnostic

/-- The offsets of the first attribute that has two. -/
def offsets (d : Diagnostic) : Option (Int × Int) :=
  d.attributes.findSome? fun
    | .positioned left right _ => some (left, right)
    | _ => none

def title (d : Diagnostic) : Option String :=
  d.attributes.findSome? fun
    | .positioned _ _ title => title
    | .title title => some title
    | _ => none

def quantifiersRemoved (d : Diagnostic) : Option Nat :=
  d.attributes.findSome? fun
    | .quantifiers count => some count
    | _ => none

def whileRule (d : Diagnostic) : Option String :=
  d.attributes.findSome? fun
    | .rule name => some name
    | _ => none

/-- The text shown for a finding: its message with the title before and the notes behind. -/
def render (d : Diagnostic) : String :=
  let titled :=
    match d.title with
    | some title => title ++ ": " ++ d.message
    | none => d.message
  let counted :=
    match d.quantifiersRemoved with
    | some count => " (quantifiers removed: " ++ toString count ++ ")"
    | none => ""
  let ruled :=
    match d.whileRule with
    | some rule => " (rule: " ++ rule ++ ")"
    | none => ""
  titled ++ counted ++ ruled

/-- A position as people count, from one. -/
def shownAt (p : Position) : String :=
  toString (p.line + 1) ++ ":" ++ toString (p.character + 1)

/-- The text shown, after the path, the position if there is one, and the severity. -/
def display (d : Diagnostic) (path : Path) : String :=
  let place :=
    match d.span with
    | some span => path.text ++ ":" ++ shownAt span.start
    | none => path.text
  place ++ ": " ++ d.severity.label ++ ": " ++ d.render

/-- Places the first attribute that has a position. -/
def anchorOf (document : Snapshot) (attributes : List Attribute) :
    Except InvalidRange (Option Span) :=
  match attributes with
  | [] => .ok none
  | .positioned left right _ :: _ => (document.span left right).map some
  | .word offset :: _ => (document.wordSpanAt offset).map some
  | _ :: rest => anchorOf document rest

/-- Where a finding belongs in a document; `none` if it has no position. -/
def anchor (d : Diagnostic) (document : Snapshot) : Except InvalidRange (Option Span) :=
  anchorOf document d.attributes

end Diagnostic
end VerifierSession
