import VerifierSession.Termination

/-!
# Events of verifier processes

What a session is told of a process: each record of its output, each chunk of its error output
and, last of all, its end.  Events carry the session that the process was started for.
-/

namespace VerifierSession

inductive ProcessOutput where
  | record (line : String)
  | complaint (chunk : String)
  | ended (termination : Termination)
  deriving DecidableEq, Repr

/-- What is heard of the process of a session. -/
structure Event where
  session : Nat
  output : ProcessOutput
  deriving DecidableEq, Repr

end VerifierSession
