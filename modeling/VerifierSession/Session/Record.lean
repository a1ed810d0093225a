import VerifierSession.Host
import VerifierSession.Wire

/-!
# What a session gathers

A session listens to the records of its verifier.  Findings that are errors are kept, each with
its place in the document; warnings are counted; everything is logged.

* `SessionRecord.take` takes one line of output;
* a line that is no record is logged and otherwise passed over.
-/

namespace VerifierSession

/-- What a session has gathered: its errors in order, its warnings, and whether it is spoilt. -/
structure SessionRecord where
  diagnostics : List Diagnostic := []
  warnings : Nat := 0
  errorsOccurred : Bool := false
  deriving DecidableEq, Repr

namespace SessionRecord

def keep (r : SessionRecord) (d : Diagnostic) : SessionRecord :=
  { r with diagnostics := r.diagnostics ++ [d], errorsOccurred := true }

def warn (r : SessionRecord) : SessionRecord :=
  { r with warnings := r.warnings + 1 }

/-- Takes an error; a range that cannot be placed in the document is left out. -/
def takeError (r : SessionRecord) (document : Snapshot) (path : Path) (d : Diagnostic) :
    SessionRecord × List HostCall :=
  match d.anchor document with
  | .ok span =>
      let placed := { d with span }
      (r.keep placed, [.log .error (placed.display path)])
  | .error range =>
      let unplaced := { d with span := none }
      (r.keep unplaced,
        [.log .warn ("Ignoring " ++ range.message ++ " of \"" ++ d.render ++ "\""),
         .log .error (unplaced.display path)])

def takeDiagnostic (r : SessionRecord) (document : Snapshot) (path : Path) (d : Diagnostic) :
    SessionRecord × List HostCall :=
  match d.severity with
  | .error => r.takeError document path d
  | .warning => (r.warn, [.log .warn d.render])
  | .info => (r, [.log .info d.render])
  | .debug => (r, [.log .debug d.render])

def takeStream (r : SessionRecord) (cls : Wire.StreamClass) (message : String) :
    SessionRecord × List HostCall :=
  match cls with
  | .fatal => ({ r with errorsOccurred := true }, HostCall.broadcast .error message)
  | .warning => (r.warn, HostCall.broadcast .warn message)
  | .informational => (r, [.log .info message])

def malformedText (m : Wire.Malformed) : String :=
  "Could not parse verifier output (" ++ m.reason.text ++ "): " ++ m.raw

def take (r : SessionRecord) (document : Snapshot) (path : Path) (line : String) :
    SessionRecord × List HostCall :=
  match Wire.decode line with
  | .ok (.diagnostic d) => r.takeDiagnostic document path d
  | .ok (.stream cls name description) => r.takeStream cls (name ++ ": " ++ description)
  | .error m => (r, [.log .warn (malformedText m)])

def hovers (r : SessionRecord) : List Hover :=
  r.diagnostics.filterMap fun d => d.span.map fun span => ⟨span, d.render⟩

def isEmpty (r : SessionRecord) : Bool :=
  r.diagnostics.isEmpty && r.warnings == 0

/-- The number of errors and warnings, or nothing if there are none. -/
def summary (r : SessionRecord) : String :=
  if r.isEmpty then ""
  else "E:" ++ toString r.diagnostics.length ++ " W:" ++ toString r.warnings

end SessionRecord
end VerifierSession
