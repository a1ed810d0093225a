import VerifierSession.Framing.Arrival
import VerifierSession.Text.Utf8

/-!
# Lines of a byte stream

A record ends at a line feed, wherever the reads are cut; the last one may lack it.  Line feeds
and carriage returns at its end are taken off and the rest is read as UTF-8.

* `cut` splits bytes at line feeds into complete pieces and what follows the last one;
* `LineReader.next` is one call: it reads until it has a line, an end or a failure;
* `LineReader.deliveries` are the results of calling until the input is used up.
-/

namespace VerifierSession
namespace Framing

def lineFeed : UInt8 :=
  10

/-- Whether a byte may belong to a line break. -/
def isBreak (b : UInt8) : Bool :=
  b == 10 || b == 13

/-- The text of a line without the line break at its end. -/
def lineText (bytes : List UInt8) : String :=
  String.ofList (Text.Utf8.lossy (bytes.reverse.dropWhile isBreak).reverse)

/-- The pieces that line feeds end, without them, and what follows the last one. -/
def cut : List UInt8 → List (List UInt8) × List UInt8
  | [] => ([], [])
  | b :: bs =>
      let (pieces, tail) := cut bs
      if b = lineFeed then ([] :: pieces, tail)
      else
        match pieces with
        | [] => ([], b :: tail)
        | piece :: pieces => ((b :: piece) :: pieces, tail)

/-- A reader of lines: bytes read ahead, and what the stream will bring. -/
structure LineReader where
  buffered : List UInt8
  arrivals : List Arrival
  deriving DecidableEq, Repr

namespace LineReader

/-- The bytes that arrivals bring, and one more for each arrival. -/
def arrivalSize : List Arrival → Nat
  | [] => 0
  | .data bytes :: arrivals => bytes.length + 1 + arrivalSize arrivals
  | .failure _ :: arrivals => 1 + arrivalSize arrivals

/-- An upper bound of the calls a reader can answer before its input is used up. -/
def size (r : LineReader) : Nat :=
  r.buffered.length + arrivalSize r.arrivals

def isSpent (r : LineReader) : Bool :=
  r.buffered.isEmpty && r.arrivals.isEmpty

/-- The end of the input, which also ends a line that has begun. -/
def atEnd (line : List UInt8) : Delivery :=
  if line.isEmpty then .endOfInput else .text (lineText line)

def collect (line buffered : List UInt8) (arrivals : List Arrival) : Delivery × LineReader :=
  match buffered.dropWhile (· != lineFeed) with
  | _ :: behind =>
      (.text (lineText (line ++ buffered.takeWhile (· != lineFeed))), ⟨behind, arrivals⟩)
  | [] =>
      match arrivals with
      | [] => (atEnd (line ++ buffered), ⟨[], []⟩)
      | .failure reason :: arrivals => (.failure reason, ⟨[], arrivals⟩)
      | .data [] :: arrivals => (atEnd (line ++ buffered), ⟨[], arrivals⟩)
      | .data bytes :: arrivals => collect (line ++ buffered) bytes arrivals

/-- One call: the next line, the end of the input, or a failure that loses the line begun. -/
def next (r : LineReader) : Delivery × LineReader :=
  collect [] r.buffered r.arrivals

theorem size_collect_le (line buffered : List UInt8) (arrivals : List Arrival) :
    (collect line buffered arrivals).2.size ≤ (LineReader.mk buffered arrivals).size := by
  induction arrivals generalizing line buffered with
  | nil =>
      unfold collect
      split
      · next b behind h =>
          have := (List.dropWhile_suffix (l := buffered) (· != lineFeed)).length_le
          simp only [h, List.length_cons] at this
          simp only [size]
          omega
      · simp [size]
  | cons arrival arrivals ih =>
      unfold collect
      split
      · next b behind h =>
          have := (List.dropWhile_suffix (l := buffered) (· != lineFeed)).length_le
          simp only [h, List.length_cons] at this
          simp only [size]
          omega
      · match arrival with
        | .failure reason => simp only [size, arrivalSize, List.length_nil]; omega
        | .data [] => simp only [size, arrivalSize, List.length_nil]; omega
        | .data (b :: bs) =>
            have := ih (line ++ buffered) (b :: bs)
            simp only [size, arrivalSize] at this ⊢
            omega

theorem size_next_lt (r : LineReader) (h : r.isSpent = false) : r.next.2.size < r.size := by
  obtain ⟨buffered, arrivals⟩ := r
  unfold next collect
  split
  · next b behind hd =>
      have := (List.dropWhile_suffix (l := buffered) (· != lineFeed)).length_le
      simp only [hd, List.length_cons] at this
      simp only [size]
      omega
  · match arrivals with
    | [] =>
        simp only [isSpent, List.isEmpty_nil, Bool.and_true, List.isEmpty_eq_false_iff] at h
        have := List.length_pos_iff.mpr h
        simp only [size, arrivalSize, List.length_nil]
        omega
    | .failure reason :: arrivals =>
        simp only [size, arrivalSize, List.length_nil]
        omega
    | .data [] :: arrivals =>
        simp only [size, arrivalSize, List.length_nil]
        omega
    | .data (b :: bs) :: arrivals =>
        have := size_collect_le ([] ++ buffered) (b :: bs) arrivals
        simp only [size, arrivalSize] at this ⊢
        omega

/-- The results of calling until the end of the input is reported and nothing is left. -/
def deliveries (r : LineReader) : List Delivery :=
  if _ : r.isSpent = true then [.endOfInput]
  else if r.next.1 = .endOfInput ∧ r.next.2.isSpent = true then [.endOfInput]
  else r.next.1 :: r.next.2.deliveries
termination_by r.size
decreasing_by exact size_next_lt r (by simp_all)

end LineReader
end Framing
end VerifierSession
