import VerifierSession.Framing.Chunk
import VerifierSession.Framing.Line
import VerifierSession.Supervision.Event

/-!
# Pipes and their readers

A verifier process writes records to one pipe and complaints to another.  Each pipe has a reader of
its own, which takes one record, or one chunk, off it at a time and hands that in before it reads
on; as long as it cannot hand it in, what is written stays in the pipe.

* `Outlet.next` is what a reader takes off its pipe;
* `Pipe.step` is whatever happens to a pipe: what those do who can write to it, and what its reader
  does.
-/

namespace VerifierSession

inductive Outlet where
  | records
  | complaints
  deriving DecidableEq, Repr

/-- What is handed in of a chunk, if it is not blank. -/
def complaintOf? (chunk : List UInt8) : Option ProcessOutput :=
  if (Framing.chunkText chunk).isEmpty then none else some (.complaint (Framing.chunkText chunk))

/--
What a reader takes off a pipe, and what that leaves unread; nothing if it has to wait for more.  A
blank chunk is taken off, but there is nothing to hand in.  When nobody can write any more, a record
needs no line feed.
-/
def Outlet.next (o : Outlet) (unread : List UInt8) (final : Bool) :
    Option (Option ProcessOutput × List UInt8) :=
  match o with
  | .records =>
      match unread.dropWhile (· != Framing.lineFeed) with
      | _ :: rest =>
          some (some (.record (Framing.lineText (unread.takeWhile (· != Framing.lineFeed)))), rest)
      | [] =>
          if final && !unread.isEmpty then some (some (.record (Framing.lineText unread)), [])
          else none
  | .complaints =>
      if unread.isEmpty then none
      else some (complaintOf? (unread.take Framing.bufferSize), unread.drop Framing.bufferSize)

/-- A pipe with its reader: what the reader has still to hand in, and whether it is done. -/
structure Pipe where
  held : Bool := false
  unread : List UInt8 := []
  pending : Option ProcessOutput := none
  closed : Bool := false
  deriving DecidableEq, Repr

namespace Pipe

/-- What can happen to a pipe; to be held is to be held by another process than its own. -/
inductive Step where
  | write (bytes : List UInt8)
  | hold
  | release
  | read
  | send
  | abandon
  deriving DecidableEq, Repr

/-- Whether anybody can write: the process, while it runs, or another one that holds the pipe. -/
def hasWriter (p : Pipe) (runs : Bool) : Bool :=
  runs || p.held

def accepts (p : Pipe) (runs : Bool) : Bool :=
  !p.closed && p.hasWriter runs

def write (p : Pipe) (runs : Bool) (bytes : List UInt8) : Pipe :=
  if p.accepts runs then { p with unread := p.unread ++ bytes } else p

/-- The reader takes something off the pipe, or it is done if nothing can come any more. -/
def read (p : Pipe) (o : Outlet) (runs : Bool) : Pipe :=
  if p.closed || p.pending.isSome then p
  else
    match o.next p.unread (!p.hasWriter runs) with
    | some (pending, unread) => { p with pending, unread }
    | none => if p.hasWriter runs then p else { p with closed := true }

/--
Whether the reader may give up a pipe that stays silent after the end of the process.  It does so
only while it waits: not while it has something to hand in, nor while there is something that it can
take off the pipe.
-/
def canAbandon (p : Pipe) (o : Outlet) (runs : Bool) : Bool :=
  !p.closed && p.pending.isNone && !runs && p.held && (o.next p.unread false).isNone

/-- The reader gives up a pipe, with what is left of a record. -/
def abandon (p : Pipe) (o : Outlet) (runs : Bool) : Pipe :=
  if p.canAbandon o runs then { p with unread := [], closed := true } else p

/-- A step, with what is handed in. -/
def step (p : Pipe) (o : Outlet) (runs : Bool) (s : Step) : Pipe × List ProcessOutput :=
  match s with
  | .write bytes => (p.write runs bytes, [])
  | .hold => ({ p with held := p.hasWriter runs }, [])
  | .release => ({ p with held := false }, [])
  | .read => (p.read o runs, [])
  | .send => ({ p with pending := none }, p.pending.toList)
  | .abandon => (p.abandon o runs, [])

/-- Whether there is something for the reader to do. -/
def isDue (p : Pipe) (o : Outlet) (runs : Bool) (s : Step) : Bool :=
  match s with
  | .read =>
      !p.closed && p.pending.isNone &&
        (!p.hasWriter runs || (o.next p.unread (!p.hasWriter runs)).isSome)
  | .send => p.pending.isSome
  | _ => false

/-! ### How much a reader has still to do -/

/-- An upper bound of the steps that a reader can take if nobody writes. -/
def work (p : Pipe) : Nat :=
  2 * p.unread.length + p.pending.toList.length + (!p.closed).toNat

theorem length_next_lt {o : Outlet} {unread rest : List UInt8} {final : Bool}
    {pending : Option ProcessOutput} (h : o.next unread final = some (pending, rest)) :
    rest.length < unread.length := by
  cases o with
  | records =>
      simp only [Outlet.next] at h
      split at h
      · next b behind hdrop =>
          have hsuffix := (List.dropWhile_suffix (l := unread) (· != Framing.lineFeed)).length_le
          rw [hdrop, List.length_cons] at hsuffix
          cases h
          exact hsuffix
      · split at h
        · next hlast =>
            cases h
            have hsome : unread ≠ [] := by simpa using (Bool.and_eq_true_iff.1 hlast).2
            exact List.length_pos_iff.2 hsome
        · cases h
  | complaints =>
      simp only [Outlet.next] at h
      split at h
      · cases h
      · next hsome =>
          cases h
          have hpos : 0 < unread.length := List.length_pos_iff.2 (by simpa using hsome)
          rw [List.length_drop]
          exact Nat.sub_lt hpos (by decide)

/-- What a reader does is less to do, by what it hands in at least. -/
theorem work_step_lt {p : Pipe} {o : Outlet} {runs : Bool} {s : Step}
    (h : p.isDue o runs s = true) :
    (p.step o runs s).1.work < p.work ∧
      (p.step o runs s).1.work + (p.step o runs s).2.length ≤ p.work := by
  cases s with
  | read =>
      simp only [isDue, Bool.and_eq_true, Bool.not_eq_true', Option.isNone_iff_eq_none] at h
      obtain ⟨⟨hopen, hempty⟩, hmore⟩ := h
      simp only [step, read, hopen, hempty, Option.isSome_none, Bool.or_self, Bool.false_eq_true,
        if_false]
      split
      · next pending unread hnext =>
          have hlt := length_next_lt hnext
          have hone : pending.toList.length ≤ 1 := by cases pending <;> simp
          simp only [work, hopen, List.length_nil]
          omega
      · next hnone =>
          have hlast : p.hasWriter runs = false := by simpa [hnone] using hmore
          simp [hlast, work, hopen, hempty]
  | send =>
      obtain ⟨output, houtput⟩ := Option.isSome_iff_exists.1 h
      simp only [step, work, houtput, Option.toList, List.length_cons, List.length_nil]
      omega
  | _ => cases h

theorem step_of_not_isDue {p : Pipe} {o : Outlet} {runs : Bool} {s : Step}
    (hs : s = .read ∨ s = .send) (h : p.isDue o runs s = false) : p.step o runs s = (p, []) := by
  rcases hs with rfl | rfl
  · simp only [step, read]
    split
    · rfl
    · next hready =>
        obtain ⟨hopen, hempty⟩ : p.closed = false ∧ p.pending = none := by simpa using hready
        obtain ⟨hwriter, hnone⟩ : p.hasWriter runs = true ∧
            o.next p.unread (!p.hasWriter runs) = none := by
          simpa [isDue, hopen, hempty] using h
        rw [hnone]
        simp only [hwriter, if_true]
  · have hempty : p.pending = none := by simpa [isDue] using h
    cases p
    cases hempty
    rfl

end Pipe
end VerifierSession
