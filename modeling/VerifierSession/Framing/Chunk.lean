import VerifierSession.Framing.Arrival
import VerifierSession.Text.Blank
import VerifierSession.Text.Utf8

/-!
# Chunks of a byte stream

What one read brings is one chunk: its text without the blanks at its ends.  A chunk of blanks
alone is passed over.

* `nextChunk` is one call, on what the reads to come will bring;
* `chunkDeliveries` are the results of calling until the input is used up.
-/

namespace VerifierSession
namespace Framing

/-- The text of a chunk, which may be empty. -/
def chunkText (bytes : List UInt8) : String :=
  String.ofList (Text.trim (Text.Utf8.lossy bytes))

/-- One call: the next chunk that is not blank, the end of the input, or a failure. -/
def nextChunk (reads : List Arrival) : Delivery × List Arrival :=
  match reads with
  | [] => (.endOfInput, [])
  | .data [] :: reads => (.endOfInput, reads)
  | .failure reason :: reads => (.failure reason, reads)
  | .data bytes :: reads =>
      if (chunkText bytes).isEmpty then nextChunk reads else (.text (chunkText bytes), reads)

theorem length_nextChunk_le (reads : List Arrival) :
    (nextChunk reads).2.length ≤ reads.length - 1 := by
  fun_induction nextChunk reads with
  | case1 => simp
  | case2 => simp
  | case3 => simp
  | case4 bytes reads _ _ ih => simp only [List.length_cons]; omega
  | case5 => simp

/-- The results of calling until the end of the input is reported and nothing is left. -/
def chunkDeliveriesFrom (reads : List Arrival) : List Delivery :=
  match reads with
  | [] => [.endOfInput]
  | read :: reads =>
      let next := nextChunk (read :: reads)
      if next.1 = .endOfInput ∧ next.2.isEmpty = true then [.endOfInput]
      else next.1 :: chunkDeliveriesFrom next.2
termination_by reads.length
decreasing_by
  have := length_nextChunk_le (read :: reads)
  simp only [List.length_cons] at this ⊢
  omega

/-- The results for a stream, read with one buffer's size at a time. -/
def chunkDeliveries (arrivals : List Arrival) : List Delivery :=
  chunkDeliveriesFrom (Arrival.reads arrivals)

end Framing
end VerifierSession
