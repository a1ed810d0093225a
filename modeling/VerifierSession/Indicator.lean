/-!
# The status indicator

What is shown of the verification: its status and, while it runs, an animation that moves every
half second.

* a `Frame` is what is shown at one time; subscribers are told of every frame that is set;
* `Indicator.set` shows the first frame of a status and stops the ticker of the one before; only a
  running verification gets a ticker of its own;
* `Indicator.advance` lets time pass, which only a ticker takes notice of.
-/

namespace VerifierSession

inductive Status where
  | idle
  | running
  | success
  | failed
  deriving DecidableEq, Repr

def Status.name : Status → String
  | idle => "Idle"
  | running => "Running"
  | success => "Success"
  | failed => "Failed"

/-- Milliseconds between two moves of the animation. -/
def tickInterval : Nat :=
  500

/-- What is shown: a status, the phase of its animation, and how often that has moved. -/
structure Frame where
  status : Status := .idle
  phase : Bool := false
  ticks : Nat := 0
  deriving DecidableEq, Repr

namespace Frame

def first (status : Status) : Frame :=
  { status }

/-- The frame after a move of the animation; only what is running moves. -/
def moved (f : Frame) : Frame :=
  if f.status = .running then { f with phase := !f.phase, ticks := f.ticks + 1 } else f

def label (f : Frame) : String :=
  match f.status with
  | .idle => "Hypra: Ready. Save a .hhl file to verify."
  | .running => "Hypra: Verification is running " ++ if f.phase then "-" else "|"
  | .success => "Hypra: Verification successful!"
  | .failed => "Hypra: Verification failed! Run again to retry."

end Frame

/--
The frame that is shown, how many milliseconds the ticker has been going if there is one, and how
often subscribers were told of a frame.
-/
structure Indicator where
  frame : Frame := {}
  ticker : Option Nat := none
  revision : Nat := 0
  deriving DecidableEq, Repr

namespace Indicator

def status (i : Indicator) : Status :=
  i.frame.status

/-- How often the animation has moved since the status was set. -/
def ticks (i : Indicator) : Nat :=
  i.frame.ticks

def label (i : Indicator) : String :=
  i.frame.label

def isAnimating (i : Indicator) : Bool :=
  i.ticker.isSome

/-! ## Setting the status -/

def tell (i : Indicator) (frame : Frame) : Indicator :=
  { i with frame, revision := i.revision + 1 }

def stopTicker (i : Indicator) : Indicator :=
  { i with ticker := none }

/-- Shows that a verification is running, with a ticker of its own. -/
def run (i : Indicator) : Indicator :=
  { i.stopTicker.tell (.first .running) with ticker := some 0 }

def settle (i : Indicator) (status : Status) : Indicator :=
  i.stopTicker.tell (.first status)

def set (i : Indicator) (status : Status) : Indicator :=
  match status with
  | .running => i.run
  | .idle | .success | .failed => i.settle status

@[simp] theorem status_set (i : Indicator) (status : Status) : (i.set status).status = status := by
  cases status <;> rfl

@[simp] theorem revision_set (i : Indicator) (status : Status) :
    (i.set status).revision = i.revision + 1 := by
  cases status <;> rfl

@[simp] theorem isAnimating_set (i : Indicator) (status : Status) :
    (i.set status).isAnimating = true ↔ status = .running := by
  cases status <;> simp [set, run, settle, stopTicker, tell, isAnimating]

/-! ## Time -/

/-- One tick: the animation moves, and subscribers are told. -/
def tick (i : Indicator) : Indicator :=
  i.tell i.frame.moved

/-- Lets time pass, in milliseconds. -/
def advance (i : Indicator) (milliseconds : Nat) : Indicator :=
  match i.ticker with
  | none => i
  | some elapsed =>
      let due := (elapsed + milliseconds) / tickInterval - elapsed / tickInterval
      { Nat.repeat tick due i with ticker := some (elapsed + milliseconds) }

@[simp] theorem status_tick (i : Indicator) : i.tick.status = i.status := by
  simp only [tick, tell, status, Frame.moved]
  split <;> rfl

@[simp] theorem status_advance (i : Indicator) (milliseconds : Nat) :
    (i.advance milliseconds).status = i.status := by
  have hticks : ∀ n, (Nat.repeat tick n i).status = i.status := by
    intro n
    induction n with
    | zero => rfl
    | succ n ih => exact (status_tick _).trans ih
  unfold advance
  split
  · rfl
  · exact hticks _

@[simp] theorem isAnimating_advance (i : Indicator) (milliseconds : Nat) :
    (i.advance milliseconds).isAnimating = i.isAnimating := by
  unfold advance
  split
  · rfl
  · next h => simp [isAnimating, h]

end Indicator
end VerifierSession
