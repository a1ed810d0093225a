import Mathlib.Data.List.Induction
import VerifierSession.Indicator

/-!
# The animation over whole histories

Whatever is done to an indicator, and in whatever order time passes in between, it shows the status
that was set last, and its animation has moved once for every whole interval since then.

* `Indicator.Shows`: a status and the time since it was set give frame and ticker;
* `Indicator.shows_set` and `Indicator.Shows.advance`: setting a status starts afresh, and time goes
  on counting from there;
* `Indicator.after_shows_last_set`: what is shown after any steps.
-/

namespace VerifierSession
namespace Indicator

/-! ## Steps -/

/-- What happens to an indicator: a status is set, or time passes. -/
inductive Step where
  | set (status : Status)
  | pass (milliseconds : Nat)
  deriving DecidableEq, Repr

def undergo (i : Indicator) : Step → Indicator
  | .set status => i.set status
  | .pass milliseconds => i.advance milliseconds

def after (i : Indicator) (steps : List Step) : Indicator :=
  steps.foldl undergo i

/-- The status that was set last; nothing is going on before one was set. -/
def lastSet (steps : List Step) : Status :=
  steps.foldl
    (fun status step =>
      match step with
      | .set new => new
      | .pass _ => status) .idle

/-- How many milliseconds have passed since a status was set. -/
def sinceSet (steps : List Step) : Nat :=
  steps.foldl
    (fun elapsed step =>
      match step with
      | .set _ => 0
      | .pass milliseconds => elapsed + milliseconds) 0

/-! ## Ticks -/

theorem moved_of_running {f : Frame} (h : f.status = .running) :
    f.moved = { f with phase := !f.phase, ticks := f.ticks + 1 } := by
  rw [Frame.moved, if_pos h]

theorem repeat_tick {i : Indicator} (h : i.status = .running) (n : Nat) :
    Nat.repeat tick n i =
      { i with
        frame :=
          { i.frame with
            phase := i.frame.phase ^^ decide (n % 2 = 1)
            ticks := i.frame.ticks + n }
        revision := i.revision + n } := by
  induction n with
  | zero => simp [Nat.repeat]
  | succ n ih =>
      have hrunning : (Nat.repeat tick n i).frame.status = .running := by rw [ih]; exact h
      have hparity : (!(i.frame.phase ^^ decide (n % 2 = 1))) =
          (i.frame.phase ^^ decide ((n + 1) % 2 = 1)) := by
        rcases Nat.mod_two_eq_zero_or_one n with hn | hn
        · have hnext : (n + 1) % 2 = 1 := by omega
          simp [hn, hnext]
        · have hnext : (n + 1) % 2 = 0 := by omega
          simp [hn, hnext]
      rw [Nat.repeat, tick, moved_of_running hrunning, ih]
      simp only [tell, hparity, Nat.add_assoc]

/-! ## What is shown -/

/-- Frame and ticker are those of a status that was set some time ago. -/
structure Shows (i : Indicator) (status : Status) (elapsed : Nat) : Prop where
  status_eq : i.status = status
  ticker_eq : i.ticker = if status = .running then some elapsed else none
  ticks_eq : i.ticks = if status = .running then elapsed / tickInterval else 0
  phase_eq : i.frame.phase = decide (i.ticks % 2 = 1)

theorem shows_new : ({} : Indicator).Shows .idle 0 :=
  ⟨rfl, rfl, rfl, rfl⟩

/-- Setting a status starts afresh, whatever was shown before. -/
theorem shows_set (i : Indicator) (status : Status) : (i.set status).Shows status 0 := by
  cases status with
  | idle => exact ⟨rfl, rfl, rfl, rfl⟩
  | running => exact ⟨rfl, rfl, rfl, rfl⟩
  | success => exact ⟨rfl, rfl, rfl, rfl⟩
  | failed => exact ⟨rfl, rfl, rfl, rfl⟩

namespace Shows

variable {i : Indicator} {status : Status} {elapsed : Nat} (h : i.Shows status elapsed)
include h

/-- Time moves only what is running, and subscribers are told of each move. -/
theorem advance (milliseconds : Nat) :
    (i.advance milliseconds).Shows status (elapsed + milliseconds) ∧
      (i.advance milliseconds).revision =
        i.revision + ((i.advance milliseconds).ticks - i.ticks) := by
  by_cases hrunning : status = .running
  · have hticker : i.ticker = some elapsed := by rw [h.ticker_eq, if_pos hrunning]
    have hticks : i.frame.ticks = elapsed / tickInterval := h.ticks_eq.trans (if_pos hrunning)
    have hphase : i.frame.phase = decide (i.frame.ticks % 2 = 1) := h.phase_eq
    -- What is due is what is missing to the intervals that are whole by now.
    obtain ⟨due, hdue⟩ :=
      Nat.exists_eq_add_of_le
        (Nat.div_le_div_right (c := tickInterval) (Nat.le_add_right elapsed milliseconds))
    have hcount : (elapsed + milliseconds) / tickInterval - elapsed / tickInterval = due := by
      omega
    have hparity : (decide (i.frame.ticks % 2 = 1) ^^ decide (due % 2 = 1)) =
        decide ((i.frame.ticks + due) % 2 = 1) := by
      rcases Nat.mod_two_eq_zero_or_one i.frame.ticks with ht | ht <;>
        rcases Nat.mod_two_eq_zero_or_one due with hd | hd <;> simp [Nat.add_mod, ht, hd]
    simp only [Indicator.advance, hticker, hcount,
      repeat_tick (h.status_eq.trans hrunning) due]
    refine ⟨⟨h.status_eq, by rw [if_pos hrunning], ?_, ?_⟩, ?_⟩
    · simp only [ticks, hticks, if_pos hrunning, hdue]
    · exact (congrArg (· ^^ decide (due % 2 = 1)) hphase).trans hparity
    · simp only [ticks, Nat.add_sub_cancel_left]
  · have hticker : i.ticker = none := by rw [h.ticker_eq, if_neg hrunning]
    have hsame : i.advance milliseconds = i := by simp only [Indicator.advance, hticker]
    rw [hsame, Nat.sub_self]
    refine ⟨⟨h.status_eq, ?_, ?_, h.phase_eq⟩, rfl⟩
    · rw [hticker, if_neg hrunning]
    · rw [h.ticks_eq, if_neg hrunning, if_neg hrunning]

theorem advance_eq_self (hstatus : status ≠ .running) (milliseconds : Nat) :
    i.advance milliseconds = i := by
  have hticker : i.ticker = none := by rw [h.ticker_eq, if_neg hstatus]
  simp only [Indicator.advance, hticker]

theorem label_of_running (hstatus : status = .running) :
    i.label = "Hypra: Verification is running " ++ if i.ticks % 2 = 1 then "-" else "|" := by
  have hrunning : i.frame.status = .running := h.status_eq.trans hstatus
  simp only [Indicator.label, Frame.label, hrunning, h.phase_eq, decide_eq_true_eq]

theorem isAnimating_iff : i.isAnimating = true ↔ status = .running := by
  rw [isAnimating, h.ticker_eq]
  by_cases hstatus : status = .running
  · simp [hstatus]
  · simp [hstatus]

end Shows

/-- After any steps the indicator shows the status that was set last, for as long as it is set. -/
theorem shows_after (steps : List Step) :
    (after {} steps).Shows (lastSet steps) (sinceSet steps) := by
  -- The last step decides, so the steps are taken off from behind.
  induction steps using List.reverseRecOn with
  | nil => exact shows_new
  | append_singleton steps step ih =>
      simp only [after, lastSet, sinceSet, List.foldl_append, List.foldl_cons,
        List.foldl_nil]
      cases step with
      | set status => exact shows_set _ status
      | pass milliseconds => exact (ih.advance milliseconds).1

/--
What is shown after any steps.  The status is the one that was set last.  If it is running, the
animation has moved once for each whole half second since it was set, the mark behind the text tells
whether that is odd, and as time goes on subscribers are told of every move and of nothing else.
Otherwise nothing moves: however much time passes, the indicator stays as it is.
-/
theorem after_shows_last_set (steps : List Step) :
    let i := after {} steps
    i.status = lastSet steps ∧
      (i.status = .running →
        i.ticks = sinceSet steps / 500 ∧
        i.label = "Hypra: Verification is running " ++ (if i.ticks % 2 = 1 then "-" else "|") ∧
        i.isAnimating = true ∧
        ∀ t, (i.advance t).revision = i.revision + ((i.advance t).ticks - i.ticks)) ∧
      (i.status ≠ .running →
        i.ticks = 0 ∧ i.isAnimating = false ∧ ∀ t, i.advance t = i) := by
  intro i
  have hshows := shows_after steps
  refine ⟨hshows.status_eq, ?_, ?_⟩
  · intro hstatus
    have hrunning : lastSet steps = .running := hshows.status_eq.symm.trans hstatus
    refine ⟨?_, hshows.label_of_running hrunning, hshows.isAnimating_iff.2 hrunning,
      fun t => (hshows.advance t).2⟩
    exact hshows.ticks_eq.trans (if_pos hrunning)
  · intro hstatus
    have hother : lastSet steps ≠ .running := fun h => hstatus (hshows.status_eq.trans h)
    refine ⟨hshows.ticks_eq.trans (if_neg hother), ?_, hshows.advance_eq_self hother⟩
    simpa using mt hshows.isAnimating_iff.1 hother

/-- Started twice: the half seconds are counted from the second start. -/
example :
    (after {} [.set .running, .pass 1250, .set .running, .pass 499, .pass 1]).ticks = 1 := by
  decide

end Indicator
end VerifierSession
