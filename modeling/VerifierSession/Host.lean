import VerifierSession.Document.Position
import VerifierSession.Path
import VerifierSession.Severity

/-!
# What a host shows

The host is the editor or terminal that a verification is shown in.  It is asked to do one thing
at a time, and what it is asked for is a list of calls.

* `Display.apply` is the effect of a call on the marks in the documents;
* `Display.run` is the effect of a list of calls.
-/

namespace VerifierSession

structure Hover where
  span : Span
  text : String
  deriving DecidableEq, Repr

inductive HostCall where
  | log (level : LogLevel) (message : String)
  | clearLog
  | notify (level : LogLevel) (message : String)
  | openDocument (path : Path)
  | decorate (path : Path) (spans : List Span)
  | clearDecorations
  | hover (path : Path) (hovers : List Hover)
  | disposeHovers
  deriving DecidableEq, Repr

namespace HostCall

/-- Shows a text and puts it into the log too. -/
def broadcast (level : LogLevel) (message : String) : List HostCall :=
  [notify level message, log level message]

end HostCall

structure Display where
  decorations : Option (Path × List Span) := none
  hovers : Option (Path × List Hover) := none
  deriving DecidableEq, Repr

namespace Display

def apply (d : Display) : HostCall → Display
  | .decorate path spans => { d with decorations := some (path, spans) }
  | .clearDecorations => { d with decorations := none }
  | .hover path hovers => { d with hovers := some (path, hovers) }
  | .disposeHovers => { d with hovers := none }
  | _ => d

def run (d : Display) (calls : List HostCall) : Display :=
  calls.foldl apply d

end Display
end VerifierSession
