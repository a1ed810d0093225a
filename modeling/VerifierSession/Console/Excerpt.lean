import VerifierSession.Document.Snapshot
import VerifierSession.Host
import VerifierSession.Text.Lines

/-!
# Excerpts

A finding is printed with the line it starts on and carets below the part of the line that it
spans.

* `excerpt` is the line and the carets, if the document has the line;
* `hoverText` is everything printed for one finding.
-/

namespace VerifierSession
namespace Console

/-- A line of a document and the marks below it. -/
structure Excerpt where
  line : List Char
  marker : List Char
  deriving DecidableEq, Repr

/-- The column behind the part of a line that a span covers. -/
def stopColumn (line : List Char) (span : Span) : Nat :=
  if span.stop.line = span.start.line then span.stop.character else line.length

/-- Carets below the part of a line that a span covers, at least one. -/
def marker (line : List Char) (span : Span) : List Char :=
  List.replicate span.start.character ' ' ++
    List.replicate (max (stopColumn line span - span.start.character) 1) '^'

def excerpt (document : Snapshot) (span : Span) : Option Excerpt :=
  (Text.lines document.chars)[span.start.line]?.map fun line => ⟨line, marker line span⟩

/-- An excerpt as it is printed, with the number of its line. -/
def Excerpt.text (e : Excerpt) (number : Nat) : String :=
  let gutter := toString number
  let pad := String.ofList (List.replicate gutter.length ' ')
  gutter ++ " | " ++ String.ofList e.line ++ "\n" ++
    pad ++ " | " ++ String.ofList e.marker ++ "\n"

/-- The documents that a console has opened: the last one counts. -/
abbrev Opened : Type :=
  Option (Path × Snapshot)

def excerptAt (opened : Opened) (path : Path) (span : Span) : Option Excerpt :=
  (opened.filter fun o => decide (o.1 = path)).bind fun o => excerpt o.2 span

/-- What is printed for a text that belongs to a span. -/
def hoverText (opened : Opened) (path : Path) (h : Hover) : String :=
  path.text ++ ":" ++ toString (h.span.start.line + 1) ++ ":" ++
    toString (h.span.start.character + 1) ++ ": " ++ h.text ++ "\n" ++
    match excerptAt opened path h.span with
    | some e => e.text (h.span.start.line + 1)
    | none => ""

/-- The word for a level in front of a notification. -/
def levelWord : LogLevel → String
  | .info => "info"
  | .warn => "warn"
  | .error => "error"
  | .debug => "debug"

/-- What is printed for a call; the log goes elsewhere, and underlines are part of the excerpts. -/
def callText (opened : Opened) : HostCall → String
  | .notify level message => levelWord level ++ ": " ++ message ++ "\n"
  | .hover path hovers => String.join (hovers.map (hoverText opened path))
  | _ => ""

def openedBy (openText : Path → Except String Snapshot) (opened : Opened) : HostCall → Opened
  | .openDocument path =>
      match openText path with
      | .ok document => some (path, document)
      | .error _ => opened
  | _ => opened

/-- The open document after some calls, and what is printed for them. -/
def showCalls (openText : Path → Except String Snapshot) (opened : Opened)
    (calls : List HostCall) : Opened × String :=
  calls.foldl
    (fun shown call =>
      let opened := openedBy openText shown.1 call
      (opened, shown.2 ++ callText opened call)) (opened, "")

end Console
end VerifierSession
