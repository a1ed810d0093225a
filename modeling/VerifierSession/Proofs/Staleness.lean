import Mathlib.Data.List.Pairwise
import VerifierSession.Proofs.Run

/-!
# Events of sessions that are over

A process that was given up is heard of for a while: its records and its end wait in the queue, or
with its readers, or arrive later, when another session is running or none.

* every verification, also one that does not start, has a larger number than those before it;
* an event of a session that is not running changes nothing, and a session that is over stays over;
* so two runs that differ in such events alone look the same (`late_events_have_no_effect`).
-/

namespace VerifierSession

namespace Exchange

/-- Whether an event is taken of a session that is not running. -/
def isStale (m : Exchange) : Bool :=
  match m.request with
  | .take e => m.before.activeSession != some e.session
  | _ => false

def begun (m : Exchange) : Option Nat :=
  match m.request with
  | .verify .. => m.after.current.map Verification.session
  | _ => none

/-- The session that a verification is started as, if it is. -/
def started (m : Exchange) : Option Nat :=
  match m.request with
  | .verify s path flags =>
      match (m.before.verify s path flags).result with
      | .ok (n, _) => some n
      | .error _ => none
  | _ => none

def effective (ms : List Exchange) : List Exchange :=
  ms.filter fun m => !m.isStale

theorem eq_of_isStale {m : Exchange} (h : m.isStale = true) :
    m.after = m.before ∧ m.calls = [] := by
  obtain ⟨c, r⟩ := m
  cases r with
  | take e =>
      have hne : c.activeSession ≠ some e.session := by simpa [isStale] using h
      have htake := Controller.take_of_inactive hne
      simp only [after, calls, Controller.respond, htake, and_self]
  | _ => cases h

theorem calls_effective (ms : List Exchange) :
    (effective ms).flatMap calls = ms.flatMap calls := by
  induction ms with
  | nil => rfl
  | cons m ms ih =>
      cases hstale : m.isStale with
      | false =>
          have hkeep : effective (m :: ms) = m :: effective ms := by simp [effective, hstale]
          rw [hkeep, List.flatMap_cons, List.flatMap_cons, ih]
      | true =>
          have hdrop : effective (m :: ms) = effective ms := by simp [effective, hstale]
          rw [hdrop, ih, List.flatMap_cons, (eq_of_isStale hstale).2, List.nil_append]

theorem begun_of_verify {m : Exchange} {s : Surroundings} {path : Path} {flags : Flags}
    (h : m.request = .verify s path flags) : m.begun = some m.before.nextSession := by
  obtain ⟨c, r⟩ := m
  cases h
  simp only [begun, after, Controller.respond]
  rcases (c.verify_cases s path flags).2 with ⟨failure, -, hphase⟩ | ⟨document, command, -, hphase⟩
  · simp [Controller.current, hphase]
  · simp [Controller.current, hphase]

theorem begun_lt {m : Exchange} {n : Nat} (h : m.begun = some n) :
    n = m.before.nextSession ∧ n < m.after.nextSession := by
  have hverify : ∃ s path flags, m.request = .verify s path flags := by
    unfold begun at h
    split at h
    · next s path flags heq => exact ⟨s, path, flags, heq⟩
    · cases h
  obtain ⟨s, path, flags, heq⟩ := hverify
  rw [begun_of_verify heq] at h
  cases h
  refine ⟨rfl, ?_⟩
  obtain ⟨c, r⟩ := m
  cases heq
  have hnext : (c.verify s path flags).controller.nextSession = c.nextSession + 1 :=
    (c.verify_cases s path flags).1
  simp only [after, Controller.respond, hnext]
  exact Nat.lt_succ_self _

theorem begun_of_started {m : Exchange} {n : Nat} (h : m.started = some n) : m.begun = some n := by
  unfold started at h
  split at h
  · next s path flags hrequest =>
      rw [begun_of_verify hrequest]
      rcases (m.before.verify_cases s path flags).2 with ⟨failure, hresult, -⟩ |
          ⟨document, command, hresult, -⟩
      · simp [hresult] at h
      · simpa [hresult] using h
  · cases h

end Exchange

namespace Controller

/-- Exchanges that leave the controller as it is can be dropped from the exchanges of requests. -/
theorem filter_course (c : Controller) {rs : List Request} {p : Exchange → Bool}
    (h : ∀ m ∈ c.course rs, p m = false → m.after = m.before) :
    (c.course rs).filter p = c.course (((c.course rs).filter p).map Exchange.request) ∧
      c.after rs = c.after (((c.course rs).filter p).map Exchange.request) := by
  induction rs generalizing c with
  | nil => exact ⟨rfl, rfl⟩
  | cons r rs ih =>
      have hlater : ∀ m ∈ (c.respond r).1.course rs, p m = false → m.after = m.before :=
        fun m hm => h m (List.mem_cons_of_mem _ hm)
      obtain ⟨hcourse, hafter⟩ := ih (c.respond r).1 hlater
      cases hkeep : p ⟨c, r⟩ with
      | false =>
          -- What follows a dropped exchange begins where that began.
          have hc : (c.respond r).1 = c := h ⟨c, r⟩ List.mem_cons_self hkeep
          have hdrop : (c.course (r :: rs)).filter p = (c.course rs).filter p := by
            simp [course, hkeep, hc]
          rw [hc] at hcourse hafter
          rw [hdrop]
          refine ⟨hcourse, ?_⟩
          simp only [after, hc]
          exact hafter
      | true =>
          have htake : (c.course (r :: rs)).filter p =
              ⟨c, r⟩ :: ((c.respond r).1.course rs).filter p := by
            simp [course, hkeep]
          rw [htake]
          refine ⟨?_, hafter⟩
          simp only [List.map_cons, course]
          rw [← hcourse]

/-- The effective exchanges of requests are the exchanges of the effective requests alone. -/
theorem effective_course (c : Controller) (rs : List Request) :
    Exchange.effective (c.course rs) =
        c.course ((Exchange.effective (c.course rs)).map Exchange.request) ∧
      c.after rs = c.after ((Exchange.effective (c.course rs)).map Exchange.request) := by
  refine c.filter_course ?_
  intro m _ hdropped
  exact (Exchange.eq_of_isStale (by simpa using hdropped)).1

theorem course_append (c : Controller) (rs rs' : List Request) :
    c.course (rs ++ rs') = c.course rs ++ (c.after rs).course rs' := by
  induction rs generalizing c with
  | nil => rfl
  | cons r rs ih => simp only [List.cons_append, course, after, ih]

theorem after_append (c : Controller) (rs rs' : List Request) :
    c.after (rs ++ rs') = (c.after rs).after rs' := by
  induction rs generalizing c with
  | nil => rfl
  | cons r rs ih => exact ih _

theorem request_course (c : Controller) (rs : List Request) :
    (c.course rs).map Exchange.request = rs := by
  induction rs generalizing c with
  | nil => rfl
  | cons r rs ih => exact congrArg (r :: ·) (ih _)

end Controller

namespace History

variable {past : List Exchange} {c : Controller}

theorem eq_course (h : History past c) :
    past = ({} : Controller).course (past.map Exchange.request) ∧
      c = ({} : Controller).after (past.map Exchange.request) := by
  induction h with
  | start => exact ⟨rfl, rfl⟩
  | @next past m _ _ ih =>
      rw [List.map_append, List.map_singleton, Controller.course_append,
        Controller.after_append, ← ih.1, ← ih.2]
      exact ⟨rfl, rfl⟩

/-- Two histories with the same effective requests are the same but for stale exchanges. -/
theorem eq_of_effective {past' : List Exchange} {c' : Controller} (h : History past c)
    (h' : History past' c')
    (heq : (Exchange.effective past).map Exchange.request =
      (Exchange.effective past').map Exchange.request) :
    Exchange.effective past = Exchange.effective past' ∧
      past.flatMap Exchange.calls = past'.flatMap Exchange.calls ∧ c = c' := by
  obtain ⟨hcourse, hafter⟩ := ({} : Controller).effective_course (past.map Exchange.request)
  obtain ⟨hcourse', hafter'⟩ := ({} : Controller).effective_course (past'.map Exchange.request)
  rw [← h.eq_course.1] at hcourse hafter
  rw [← h'.eq_course.1] at hcourse' hafter'
  have hsame : Exchange.effective past = Exchange.effective past' := by
    rw [hcourse, hcourse', heq]
  refine ⟨hsame, ?_, ?_⟩
  · rw [← Exchange.calls_effective past, ← Exchange.calls_effective past', hsame]
  · rw [h.eq_course.2, h'.eq_course.2, hafter, hafter', heq]

theorem begun_pairwise (h : History past c) :
    (past.filterMap Exchange.begun).Pairwise (· < ·) ∧
      ∀ n ∈ past.filterMap Exchange.begun, n < c.nextSession := by
  induction h with
  | start => exact ⟨by simp, by simp⟩
  | @next past m _ _ ih =>
      obtain ⟨hpairwise, hlt⟩ := ih
      have hle := m.answer.nextSession_le
      rw [List.filterMap_append]
      cases hbegun : m.begun with
      | none =>
          simp only [List.filterMap_cons, List.filterMap_nil, hbegun, List.append_nil]
          exact ⟨hpairwise, fun n hn => Nat.lt_of_lt_of_le (hlt n hn) hle⟩
      | some n =>
          obtain ⟨hn, hnext⟩ := Exchange.begun_lt hbegun
          simp only [List.filterMap_cons, List.filterMap_nil, hbegun]
          refine ⟨?_, ?_⟩
          · refine List.pairwise_append.2 ⟨hpairwise, by simp, ?_⟩
            intro n₁ hn₁ n₂ hn₂
            rw [List.mem_singleton.1 hn₂, hn]
            exact hlt n₁ hn₁
          · intro n' hn'
            rcases List.mem_append.1 hn' with hold | hnew
            · exact Nat.lt_of_lt_of_le (hlt n' hold) hle
            · rw [List.mem_singleton.1 hnew]
              exact hnext

theorem eq_of_begun (h : History past c) {m m' : Exchange} (hm : m ∈ past) (hm' : m' ∈ past)
    {n : Nat} (hbegun : m.begun = some n) (hbegun' : m'.begun = some n) : m = m' := by
  by_contra hne
  -- Of two different exchanges one comes first, and its number is smaller.
  have hpairwise : past.Pairwise fun m₁ m₂ => ∀ k, m₁.begun = some k → m₂.begun ≠ some k := by
    refine (List.pairwise_filterMap.1 h.begun_pairwise.1).imp ?_
    intro m₁ m₂ hlt k hk₁ hk₂
    exact Nat.lt_irrefl k (hlt k hk₁ k hk₂)
  have hsymm : Std.Symm fun m₁ m₂ : Exchange => ∀ k, m₁.begun = some k → m₂.begun ≠ some k :=
    ⟨fun m₁ m₂ h k hk₁ hk₂ => h k hk₂ hk₁⟩
  exact hpairwise.forall hm hm' hne n hbegun hbegun'

end History

namespace Workbench

/--
No late event touches a newer session.  In every run each verification has a larger number than
all before it; an event of a session that is not running changes nothing when it is taken; and once
a session is over, no event of it ever changes anything again.  Hence two runs with the same
effective requests, whatever stale events are taken in between, make the same calls and have the
same controllers at the same exchanges and at the end.
-/
theorem late_events_have_no_effect :
    (∀ (setup : Setup) (directory : Directory) (hs : List Happening),
      let w := opened setup directory
      ((w.history hs).filterMap Exchange.begun).Pairwise (· < ·) ∧
      (∀ m ∈ w.history hs,
        (∀ s path flags, m.request = .verify s path flags → m.begun ≠ none) ∧
          ∀ n, m.started = some n → m.begun = some n) ∧
      (∀ e : Event, (w.after hs).controller.activeSession ≠ some e.session →
        (w.after hs).controller.take e = ((w.after hs).controller, [])) ∧
      ∀ past m later, w.history hs = past ++ m :: later → ∀ n, m.after.Over n →
        ∀ m' ∈ later, ∀ e, m'.request = .take e → e.session = n →
          m'.after = m'.before ∧ m'.calls = []) ∧
    ∀ (setup setup' : Setup) (directory directory' : Directory) (hs hs' : List Happening),
      let w := opened setup directory
      let w' := opened setup' directory'
      (Exchange.effective (w.history hs)).map Exchange.request =
        (Exchange.effective (w'.history hs')).map Exchange.request →
      Exchange.effective (w.history hs) = Exchange.effective (w'.history hs') ∧
        w.calls hs = w'.calls hs' ∧ (w.after hs).controller = (w'.after hs').controller := by
  constructor
  · intro setup directory hs w
    have hhistory := history_history setup directory hs
    refine ⟨hhistory.begun_pairwise.1, ?_, ?_, ?_⟩
    · intro m _
      refine ⟨?_, fun n hn => Exchange.begun_of_started hn⟩
      intro s path flags hm
      rw [Exchange.begun_of_verify hm]
      exact Option.some_ne_none _
    · intro e hinactive
      exact Controller.take_of_inactive hinactive
    · intro past m later hsplit n hover m' hm' e he hn
      have hover' : m'.before.Over n := by
        have hall : History (past ++ m :: later) (w.after hs).controller := hsplit ▸ hhistory
        exact (hall.over_kept hover).2 m' hm'
      apply Exchange.eq_of_isStale
      simp only [Exchange.isStale, he, hn]
      simpa using hover'.2
  · intro setup setup' directory directory' hs hs' w w' heq
    obtain ⟨hsame, hcalls, hcontroller⟩ :=
      (history_history setup directory hs).eq_of_effective
        (history_history setup' directory' hs') heq
    refine ⟨hsame, ?_, hcontroller⟩
    rw [calls_eq, calls_eq]
    exact hcalls

/-- A verification is superseded, and its process is heard of after that. -/
def supersededRun : List Happening :=
  [verifySample, verifySample] ++ readOn 1 1

/-- Whether the end of a session that was superseded is taken makes no difference. -/
theorem superseded_end_has_no_effect :
    Exchange.taken (sample.history (supersededRun ++ [.action .drain])) = [⟨1, .ended .signaled⟩] ∧
      sample.calls (supersededRun ++ [.action .drain]) = sample.calls supersededRun := by
  have hstale : Exchange.effective ((sample.after supersededRun).exchanges (.action .drain)) = [] :=
    List.isEmpty_iff.1 (by decide +kernel)
  have hsame : Exchange.effective (sample.history (supersededRun ++ [.action .drain])) =
      Exchange.effective (sample.history supersededRun) := by
    rw [history_append, Exchange.effective, List.filter_append, ← Exchange.effective,
      ← Exchange.effective, hstale, List.append_nil]
  refine ⟨by decide +kernel, ?_⟩
  exact (late_events_have_no_effect.2 sampleSetup sampleSetup sampleDirectory sampleDirectory _ _
    (congrArg _ hsame)).2.1

end Workbench
end VerifierSession
