import VerifierSession.Supervision.Event

/-!
# The queue of events

Events wait until the session takes them, first come first served.  There is room for a fixed number
of them; whoever has more to hand in has to wait with it.

* `Queue.push` adds events at the end, if there is room for them;
* `Queue.take` removes events at the front.
-/

namespace VerifierSession

def queueCapacity : Nat :=
  256

/-- The events that wait, in order. -/
structure Queue where
  events : List Event := []
  bounded : events.length ≤ queueCapacity := by exact Nat.zero_le _
  deriving DecidableEq, Repr

namespace Queue

def room (q : Queue) : Nat :=
  queueCapacity - q.events.length

def push (q : Queue) (events : List Event) : Queue :=
  if h : (q.events ++ events).length ≤ queueCapacity then ⟨q.events ++ events, h⟩ else q

/-- Takes events, up to a number. -/
def take (q : Queue) (budget : Nat) : List Event × Queue :=
  (q.events.take budget,
    ⟨q.events.drop budget, Nat.le_trans (by simp) q.bounded⟩)

theorem events_push {q : Queue} {events : List Event} (h : events.length ≤ q.room) :
    (q.push events).events = q.events ++ events := by
  have hroom : (q.events ++ events).length ≤ queueCapacity := by
    have hbounded := q.bounded
    simp only [room] at h
    rw [List.length_append]
    omega
  rw [push, dif_pos hroom]

theorem length_push_le (q : Queue) (events : List Event) :
    (q.push events).events.length ≤ q.events.length + events.length := by
  rw [push]
  split
  · exact Nat.le_of_eq List.length_append
  · exact Nat.le_add_right ..

@[simp] theorem push_nil (q : Queue) : q.push [] = q := by
  simp [push]

end Queue
end VerifierSession
