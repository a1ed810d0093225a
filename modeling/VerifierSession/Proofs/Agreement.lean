import VerifierSession.Proofs.Settling
import VerifierSession.Proofs.Verdict

/-!
# Phase, status and animation

What a controller is doing, the status that is shown of it and the ticker of its indicator are set
one by one, in every answer that changes any of them.  They never disagree.

* `Phase.Shows`: which status belongs to a phase; only a session without errors shows a success;
* `Controller.Answer.agrees`: every answer brings phase, status and ticker to agreement;
* `Workbench.phase_agrees_with_status`: so they agree after every exchange of a run, and whoever
  waits for the end of a session never learns that it is running.
-/

namespace VerifierSession

def Phase.Shows : Phase → Status → Prop
  | .idle, status => status = .idle
  | .active _ _, status => status = .running
  | .finished v, status =>
      status = .failed ∨ (status = .success ∧ v.record.errorsOccurred = false)

theorem Phase.Shows.iff {p : Phase} {status : Status} (h : p.Shows status) :
    ((∃ v document, p = .active v document) ↔ status = .running) ∧
      (p = .idle ↔ status = .idle) ∧
      ((∃ v, p = .finished v) ↔ status = .success ∨ status = .failed) := by
  cases p with
  | idle =>
      have hstatus : status = .idle := h
      simp [hstatus]
  | active v document =>
      have hstatus : status = .running := h
      simp [hstatus]
  | finished v =>
      rcases h with hfailed | ⟨hsuccess, -⟩
      · simp [hfailed]
      · simp [hsuccess]

/-- Whether a record that has findings counts as spoilt. -/
def SessionRecord.Marked (r : SessionRecord) : Prop :=
  r.diagnostics ≠ [] → r.errorsOccurred = true

/-- A record stays marked: a finding is kept only by what spoils the session. -/
theorem SessionRecord.Marked.take {r : SessionRecord} (h : r.Marked) (document : Snapshot)
    (path : Path) (line : String) : (r.take document path line).1.Marked := by
  intro hfindings
  rw [errorsOccurred_take]
  cases hline : Wire.condemns line with
  | true => exact Bool.or_true _
  | false =>
      have hsame : (r.take document path line).1.diagnostics = r.diagnostics :=
        diagnostics_take r document path hline
      have hbefore : r.errorsOccurred = true := h (hsame ▸ hfindings)
      simpa using hbefore

namespace Controller

/-- Phase, status and ticker agree, and a record with findings is spoilt. -/
structure Agrees (c : Controller) : Prop where
  shows : c.phase.Shows c.status
  animating : c.indicator.isAnimating = true ↔ c.status = .running
  marked : ∀ v, c.current = some v → v.record.Marked

theorem agrees_new : ({} : Controller).Agrees where
  shows := rfl
  animating := by decide
  marked := by
    intro v hv
    cases hv

/-- The verdict on a record without errors alone is a success. -/
theorem shows_verdict (v : Verification) (termination : Termination) :
    (Phase.finished v).Shows (verdict v termination).1 := by
  by_cases hclean : termination = .exited 0 ∧ v.record.errorsOccurred = false
  · have hsuccess := verdict_of_clean v termination hclean.1 hclean.2
    right
    exact ⟨by rw [hsuccess], hclean.2⟩
  · obtain ⟨text, hfailed⟩ := verdict_of_not_clean v termination hclean
    left
    rw [hfailed]

namespace Answer

variable {c c' : Controller} {r : Request} {calls : List HostCall}

/-- Every answer leaves phase, status and ticker in agreement. -/
theorem agrees (h : c.Answer r c' calls) (hc : c.Agrees) : c'.Agrees := by
  -- Whoever sets the status sets the ticker with it.
  have hset : ∀ (i : Indicator) (status : Status),
      (i.set status).isAnimating = true ↔ (i.set status).status = .running := by
    intro i status
    rw [Indicator.isAnimating_set, Indicator.status_set]
  -- A verification begins with nothing gathered.
  have hnew : ∀ (n : Nat) (path : Path),
      ({ session := n, path } : Verification).record.Marked := by
    intro n path hfindings
    exact absurd rfl hfindings
  cases h with
  | failed _ =>
      refine ⟨.inl (Indicator.status_set _ _), hset _ _, ?_⟩
      intro v hv
      cases hv
      exact hnew _ _
  | started _ =>
      refine ⟨Indicator.status_set _ _, hset _ _, ?_⟩
      intro v hv
      cases hv
      exact hnew _ _
  | stale _ => exact hc
  | @record v document line hp =>
      have hrunning : c.status = .running := by
        have hshows := hc.shows
        rw [hp] at hshows
        exact hshows
      refine ⟨hrunning, hc.animating, ?_⟩
      intro v' hv'
      cases hv'
      exact (hc.marked v (by simp [current, hp])).take document v.path line
  | complaint _ => exact hc
  | @ended v document termination hp =>
      refine ⟨?_, hset _ _, ?_⟩
      · rw [finish_phase, finish_status]
        exact shows_verdict v termination
      · intro v' hv'
        cases hv'
        exact hc.marked v (by simp [current, hp])
  | stopped =>
      refine ⟨Indicator.status_set _ _, hset _ _, ?_⟩
      intro v hv
      cases hv
  | aside _ _ => exact hc

end Answer

/-! ## What agreement means -/

namespace Agrees

variable {c : Controller}

theorem active_iff (h : c.Agrees) :
    (∃ v document, c.phase = .active v document) ↔ c.status = .running :=
  h.shows.iff.1

theorem idle_iff (h : c.Agrees) : c.phase = .idle ↔ c.status = .idle :=
  h.shows.iff.2.1

theorem finished_iff (h : c.Agrees) :
    (∃ v, c.phase = .finished v) ↔ c.status = .success ∨ c.status = .failed :=
  h.shows.iff.2.2

/-- The session that runs is the one that is shown, if the status says that one runs. -/
theorem activeSession_eq (h : c.Agrees) :
    c.activeSession =
      if c.status = .running then c.current.map Verification.session else none := by
  by_cases hrunning : c.status = .running
  · obtain ⟨v, document, hp⟩ := h.active_iff.2 hrunning
    simp [activeSession, current, hp, hrunning]
  · rw [if_neg hrunning]
    cases hactive : c.activeSession with
    | none => rfl
    | some n =>
        obtain ⟨v, document, hp, -⟩ := exists_of_activeSession hactive
        exact absurd (h.active_iff.1 ⟨v, document, hp⟩) hrunning

theorem marked_record (h : c.Agrees) : c.record.Marked := by
  unfold record
  cases hv : c.current with
  | none => exact fun hfindings => absurd rfl hfindings
  | some v => exact h.marked v hv

theorem diagnostics_of_success (h : c.Agrees) (hsuccess : c.status = .success) :
    c.record.diagnostics = [] := by
  obtain ⟨v, hp⟩ := h.finished_iff.2 (.inl hsuccess)
  have hshows := h.shows
  rw [hp] at hshows
  have hrecord : c.record = v.record := by simp [record, current, hp]
  rcases hshows with hfailed | ⟨-, hclean⟩
  · rw [hsuccess] at hfailed
    cases hfailed
  · by_contra hfindings
    have hspoilt := h.marked_record hfindings
    rw [hrecord, hclean] at hspoilt
    cases hspoilt

end Agrees

/-- If a verification still runs after events were taken, none of them is left. -/
theorem takeWhileActive_left (c : Controller) (events : List Event)
    (h : (c.takeWhileActive events).1.activeSession.isSome = true) :
    (c.takeWhileActive events).2.2 = [] := by
  induction events generalizing c with
  | nil => rfl
  | cons e events ih =>
      cases hactive : c.activeSession with
      | none => simp [takeWhileActive, hactive] at h
      | some n =>
          simp only [takeWhileActive, hactive] at h ⊢
          exact ih (c.take e).1 h

end Controller

theorem History.agrees {past : List Exchange} {c : Controller} (h : History past c) :
    c.Agrees := by
  induction h with
  | start => exact Controller.agrees_new
  | @next past m _ _ ih => exact m.answer.agrees ih

namespace Workbench

theorem status_of_agrees {c : Controller} (h : c.Agrees) :
    c.status = .running ↔ c.activeSession.isSome = true := by
  rw [← h.active_iff]
  constructor
  · rintro ⟨v, document, hp⟩
    rw [Controller.activeSession_of_active hp]
    rfl
  · intro hactive
    obtain ⟨n, hn⟩ := Option.isSome_iff_exists.1 hactive
    obtain ⟨v, document, hp, -⟩ := Controller.exists_of_activeSession hn
    exact ⟨v, document, hp⟩

/-- Waiting for the end of a session: what is answered, and why if it is still running. -/
theorem status_of_complete (w : Workbench) (h : w.complete.1.controller.Agrees) :
    (w.complete.1.controller.status = .running ↔
        w.complete.1.controller.activeSession.isSome = true) ∧
      (w.complete.1.controller.activeSession.isSome = true →
        w.complete.1.queue.events = []) := by
  refine ⟨status_of_agrees h, ?_⟩
  intro hactive
  have hleft := w.controller.takeWhileActive_left w.queue.events hactive
  have hkept : w.complete.1.queue.events = w.queue.events.drop
      (w.queue.events.length - (w.controller.takeWhileActive w.queue.events).2.2.length) := rfl
  rw [hkept, hleft, List.length_nil, Nat.sub_zero, List.drop_length]

/-- Waiting while the readers go on: a verification is still running only if none of them can. -/
theorem status_of_step {w : Workbench} {a : Action} (drained : Bool)
    (h : (w.step a false).1.controller.Agrees) (ha : a = .complete ∨ a = .abandon) :
    ∃ status, (w.step a drained).2.2 = .status status ∧
      (status = .running ↔ (w.step a drained).1.controller.activeSession.isSome = true) ∧
      (status = .running → (w.step a drained).1.AtRest) := by
  obtain ⟨hreply, ⟨calls, hlater⟩, hrunning⟩ := w.step_of_waits_reply drained ha
  have hstatus := status_of_agrees h
  refine ⟨_, hreply, ?_, ?_⟩
  · rw [hstatus]
    constructor
    · intro hactive
      rw [(hrunning hactive).1]
      exact hactive
    · intro hactive
      obtain ⟨n, hn⟩ := Option.isSome_iff_exists.1 hactive
      rw [hlater.activeSession hn]
      rfl
  · intro hruns
    obtain ⟨hsame, hrest⟩ := hrunning (hstatus.1 hruns)
    rw [hsame]
    exact hrest

variable (setup : Setup) (directory : Directory)

theorem agrees_after (hs : List Happening) :
    ((opened setup directory).after hs).controller.Agrees :=
  (history_history setup directory hs).agrees

/--
Phase and status never disagree.  In every run, after every request and every event that is taken,
and so after every action: a session runs exactly if the status is running, and exactly then the
indicator is animated, however much time passes; nothing was verified exactly if the status is idle;
a verification is finished exactly if the status is success or failure.  The running session is the
one that is shown, a record with findings is spoilt, so after a success there are none and a
finished verification with findings has failed.  Whoever waits for the end of a session is answered
once no session runs, and never that one is running; until then all events were taken, and if the
readers go on while that is awaited, until none of them has anything more to do.
-/
theorem phase_agrees_with_status (hs : List Happening) :
    let w := (opened setup directory).after hs
    (∀ c, (c = w.controller ∨ ∃ m ∈ (opened setup directory).history hs, c = m.after) →
      ((∃ v document, c.phase = .active v document) ↔ c.status = .running) ∧
      (∀ t, (c.indicator.advance t).status = c.status ∧
        ((c.indicator.advance t).isAnimating = true ↔ c.status = .running)) ∧
      (c.phase = .idle ↔ c.status = .idle) ∧
      ((∃ v, c.phase = .finished v) ↔ c.status = .success ∨ c.status = .failed) ∧
      (c.activeSession =
        if c.status = .running then c.current.map Verification.session else none) ∧
      (c.record.diagnostics ≠ [] → c.record.errorsOccurred = true) ∧
      (c.status = .success → c.record.diagnostics = []) ∧
      ∀ v, c.phase = .finished v → v.record.diagnostics ≠ [] → c.status = .failed) ∧
    ∀ a, a = .complete ∨ a = .abandon →
      ∃ status, (w.act a).2.2 = .status status ∧
        (status = .running ↔ (w.act a).1.controller.activeSession.isSome = true) ∧
        ((w.act a).1.controller.activeSession.isSome = true → (w.act a).1.queue.events = []) ∧
        ∀ drained, ∃ status, (w.step a drained).2.2 = .status status ∧
          (status = .running ↔ (w.step a drained).1.controller.activeSession.isSome = true) ∧
          (status = .running → (w.step a drained).1.AtRest) := by
  intro w
  have hhistory := history_history setup directory hs
  refine ⟨?_, ?_⟩
  · intro c hc
    have hagrees : c.Agrees := by
      rcases hc with rfl | ⟨m, hm, rfl⟩
      · exact hhistory.agrees
      · -- The exchange has a history of its own.
        obtain ⟨past, later, hsplit⟩ := List.append_of_mem hm
        have hall : History (past ++ m :: later) w.controller := hsplit ▸ hhistory
        exact (History.next hall.split.1 hall.split.2).agrees
    refine ⟨hagrees.active_iff, ?_, hagrees.idle_iff, hagrees.finished_iff,
      hagrees.activeSession_eq, hagrees.marked_record, hagrees.diagnostics_of_success, ?_⟩
    · intro t
      rw [Indicator.status_advance, Indicator.isAnimating_advance]
      exact ⟨rfl, hagrees.animating⟩
    · intro v hp hfindings
      have hrecord : c.record = v.record := by simp [Controller.record, Controller.current, hp]
      rcases hagrees.finished_iff.1 ⟨v, hp⟩ with hsuccess | hfailed
      · have hnone := hagrees.diagnostics_of_success hsuccess
        rw [hrecord] at hnone
        exact absurd hnone hfindings
      · exact hfailed
  · -- The action is one more happening, so there is agreement after it too.
    intro a ha
    have hafter : (w.act a).1.controller.Agrees := by
      have hall := agrees_after setup directory (hs ++ [.action a])
      rw [after_append] at hall
      exact hall
    -- So is a step, which is a run of its own.
    have hstep : (w.step a false).1.controller.Agrees := by
      obtain ⟨before, later, -, hrun, -⟩ := w.step_run a false
      have hall := agrees_after setup directory (hs ++ (before ++ .action a :: later))
      rw [after_run] at hall
      rw [hrun]
      exact hall
    have hwaits := fun drained => status_of_step drained hstep ha
    rcases ha with rfl | rfl
    · obtain ⟨hstatus, hnone⟩ := w.status_of_complete hafter
      exact ⟨_, rfl, hstatus, hnone, hwaits⟩
    · obtain ⟨hstatus, hnone⟩ := (w.touch .abandon).status_of_complete hafter
      exact ⟨_, rfl, hstatus, hnone, hwaits⟩

end Workbench
end VerifierSession
