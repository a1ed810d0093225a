/-!
# Reads and deliveries

What a stream brings, one read at a time, and what a reader on top of it hands out.

* an `Arrival` of no bytes is an end of the input, as far as that read can tell;
* `blocks` cuts bytes into what a buffer holds.
-/

namespace VerifierSession
namespace Framing

inductive Arrival where
  | data (bytes : List UInt8)
  | failure (reason : String)
  deriving DecidableEq, Repr

/-- What a reader hands out when it is called. -/
inductive Delivery where
  | text (s : String)
  | endOfInput
  | failure (reason : String)
  deriving DecidableEq, Repr

def bufferSize : Nat :=
  8192

/-- The bytes as a buffer takes them: full blocks, and what is left. -/
def blocks (bytes : List UInt8) : List (List UInt8) :=
  if bytes.length ≤ bufferSize then [bytes]
  else bytes.take bufferSize :: blocks (bytes.drop bufferSize)
termination_by bytes.length
decreasing_by
  simp only [bufferSize, List.length_drop] at *
  omega

/-- The arrivals as a buffer takes them. -/
def Arrival.reads (arrivals : List Arrival) : List Arrival :=
  arrivals.flatMap fun
    | .data bytes => (blocks bytes).map .data
    | .failure reason => [.failure reason]

end Framing
end VerifierSession
