/-!
# How a process ends

A process ends with a code or by a signal; if waiting for it fails, its end is unknown.  Only the
code zero is a clean end.
-/

namespace VerifierSession

inductive Termination where
  | exited (code : Int)
  | signaled
  | lost (reason : String)
  deriving DecidableEq, Repr

namespace Termination

/-- The end of a process that asks for a code; its last eight bits are kept. -/
def ofCode (code : Int) : Termination :=
  exited (code.emod 256)

def text : Termination → String
  | exited code => "code " ++ toString code
  | signaled => "a signal"
  | lost reason => "an unknown status (" ++ reason ++ ")"

def code? : Termination → Option Int
  | exited code => some code
  | _ => none

/-- Whether nothing went wrong. -/
def isClean (t : Termination) : Bool :=
  t == .exited 0

end Termination
end VerifierSession
