import VerifierSession.Proofs.Accounts
import VerifierSession.Proofs.Verdict

/-!
# What a success says about the output

A verdict is made from what was delivered of the output of the process: everything up to its last
line feed, and the rest too if the pipe was closed.  If the pipe was given up, the rest is lost.

* `History.finished_cases`: where the status of a finished verification comes from;
* `Workbench.recordsOf_eq_delivered`: what was taken before the end is what was delivered;
* `Workbench.success_iff_delivered`: a success says nothing about what was lost.
-/

namespace VerifierSession

theorem Controller.Answer.finished_cases {c c' : Controller} {r : Request} {calls : List HostCall}
    {v : Verification} (h : c.Answer r c' calls) (hp : c'.phase = .finished v) :
    (∃ s path flags failure, r = .verify s path flags ∧
      (c.verify s path flags).result = .error failure ∧ v.session = c.nextSession) ∨
    c' = c ∨
    ∃ termination, r = .take ⟨v.session, .ended termination⟩ ∧ c.activeSession = some v.session ∧
      c.issued c' = some (v.session, c'.status) := by
  cases h with
  | @failed s path flags calls failure hprepare =>
      cases hp
      exact .inl ⟨s, path, flags, failure, rfl, by rw [c.verify_of_error hprepare], rfl⟩
  | started _ => cases hp
  | stale _ => exact .inr (.inl rfl)
  | record _ => cases hp
  | complaint _ => exact .inr (.inl rfl)
  | @ended _ document termination hactive =>
      cases hp
      refine .inr (.inr ⟨termination, rfl, activeSession_of_active hactive, ?_⟩)
      rw [finish_status]
      exact c.issued_finish v termination
  | stopped => cases hp
  | aside _ _ => exact .inr (.inl rfl)

namespace History

variable {past : List Exchange} {c : Controller}

/-- A finished verification failed to start, or its status came with the end of its process. -/
theorem finished_cases (h : History past c) {v : Verification} (hp : c.phase = .finished v) :
    (∃ m ∈ past, m.begun = some v.session ∧ m.started = none) ∨
    ∃ before m later termination, past = before ++ m :: later ∧
      m.before.activeSession = some v.session ∧
      m.request = .take ⟨v.session, .ended termination⟩ ∧
      m.issued = some (v.session, c.status) := by
  induction h with
  | start => cases hp
  | @next past m hpast _ ih =>
      rcases m.answer.finished_cases hp with
        ⟨s, path, flags, failure, hrequest, hresult, hsession⟩ | hsame |
          ⟨termination, hrequest, hactive, hissued⟩
      · left
        refine ⟨m, by simp, ?_, ?_⟩
        · rw [Exchange.begun_of_verify hrequest, hsession]
        · simp only [Exchange.started, hrequest, hresult]
      · rw [hsame] at hp ⊢
        rcases ih hp with ⟨m', hm', hfailed⟩ | ⟨before, m', later, termination, rfl, hended⟩
        · exact .inl ⟨m', List.mem_append_left _ hm', hfailed⟩
        · exact .inr ⟨before, m', later ++ [m], termination, by simp, hended⟩
      · exact .inr ⟨past, m, [], termination, rfl, hactive, hrequest, hissued⟩

theorem ended_not_mem_taken (h : History past c) {n : Nat} (hn : c.activeSession = some n)
    (termination : Termination) : (⟨n, .ended termination⟩ : Event) ∉ Exchange.taken past := by
  intro hmem
  obtain ⟨m, hm, hrequest⟩ := Exchange.mem_taken.1 hmem
  -- It would have been taken in time, and the session would be over since.
  have hfresh := h.not_isStale hn hm hrequest rfl
  obtain ⟨before, later, rfl⟩ := List.append_of_mem hm
  have hactive : m.before.activeSession = some n := by
    simpa [Exchange.isStale, hrequest] using hfresh
  have hover : m.after.Over n := by
    refine ⟨Nat.lt_of_lt_of_le (h.split.2 _ hrequest) m.answer.nextSession_le, ?_⟩
    obtain ⟨v, document, hp, rfl⟩ := Controller.exists_of_activeSession hactive
    rw [Exchange.after, hrequest, Controller.respond, Controller.take_ended hp]
    simp [Controller.activeSession]
  exact (h.over_kept hover).1.2 hn

end History

/-- What was taken of a session that runs is not its end. -/
theorem History.isEnd_of_mem_taken {past : List Exchange} {c : Controller} (h : History past c)
    {n : Nat} (hn : c.activeSession = some n) :
    ∀ e ∈ (Exchange.taken past).filter (fun e => e.session == n), e.output.isEnd = false := by
  rintro ⟨n', output⟩ he
  obtain ⟨hmem, hsession⟩ := List.mem_filter.1 he
  obtain rfl : n' = n := by simpa using hsession
  cases output with
  | record line => rfl
  | complaint chunk => rfl
  | ended termination => exact absurd hmem (h.ended_not_mem_taken hn termination)

theorem Event.eq_of_append_end {body body' rest rest' : List Event} {last last' : Event}
    (heq : body ++ last :: rest = body' ++ last' :: rest')
    (hbody : ∀ e ∈ body, e.output.isEnd = false) (hbody' : ∀ e ∈ body', e.output.isEnd = false)
    (hlast : last.output.isEnd = true) (hlast' : last'.output.isEnd = true) :
    body = body' ∧ last = last' ∧ rest = rest' := by
  have htake := congrArg (List.takeWhile fun e : Event => !e.output.isEnd) heq
  rw [List.takeWhile_append_of_pos (by simpa using hbody),
    List.takeWhile_append_of_pos (by simpa using hbody')] at htake
  simp only [List.takeWhile_cons, hlast, hlast', Bool.not_true, Bool.false_eq_true, if_false,
    List.append_nil] at htake
  rw [htake] at heq
  exact ⟨htake, List.cons.inj (List.append_cancel_left heq)⟩

namespace Workbench

variable (setup : Setup) (directory : Directory)

/-- What arrives of a session is what was taken of it and what still waits, in order. -/
theorem arrivals_filter_eq {hs : List Happening} {before later : List Exchange} {m : Exchange}
    {n : Nat} {output : ProcessOutput}
    (hsplit : (opened setup directory).history hs = before ++ m :: later)
    (hrequest : m.request = .take ⟨n, output⟩) :
    ((opened setup directory).arrivals hs).filter (fun e => e.session == n) =
      (Exchange.taken before).filter (fun e => e.session == n) ++ ⟨n, output⟩ ::
        ((Exchange.taken later).filter (fun e => e.session == n) ++
          ((opened setup directory).after hs).queue.events.filter fun e => e.session == n) := by
  have hfifo := taken_append_queue_opened setup directory hs
  rw [hsplit] at hfifo
  rw [← hfifo, Exchange.taken_append_cons hrequest]
  simp

/-- What is taken of a session before its end is what was delivered of the output of its process. -/
theorem recordsOf_eq_delivered {hs : List Happening} {child : Child}
    (hchild : child ∈ ((opened setup directory).after hs).children)
    {before later : List Exchange} {m : Exchange} {termination : Termination}
    (hsplit : (opened setup directory).history hs = before ++ m :: later)
    (hactive : m.before.activeSession = some child.session)
    (hrequest : m.request = .take ⟨child.session, .ended termination⟩) :
    child.ending = some termination ∧
      Exchange.recordsOf child.session before =
        ((opened setup directory).output child.session hs).delivered := by
  have hhistory : History (before ++ m :: later) _ :=
    hsplit ▸ history_history setup directory hs
  have haccount := accounted setup directory hs hchild
  rw [arrivals_filter_eq setup directory hsplit hrequest] at haccount
  -- An end that was taken is one that was told.
  have htold : child.told = true := by
    by_contra huntold
    have hquiet := haccount.of_untold (by simpa using huntold) ⟨child.session, .ended termination⟩
      (by simp)
    cases hquiet
  obtain ⟨termination', body, hending, hheard, hbody, hdelivered⟩ := haccount.ended htold
  -- What was taken and what waits is what arrived; the first end in it is the one that was taken.
  have hquiet := hhistory.split.1.isEnd_of_mem_taken hactive
  obtain ⟨hsame, hend, -⟩ := Event.eq_of_append_end hheard hquiet hbody rfl rfl
  refine ⟨?_, ?_⟩
  · cases hend
    exact hending
  · rw [Exchange.recordsOf, hsame]
    exact hdelivered

/--
What a success says about the output of the process.  When a session that was started has
finished, its process has ended, and the verdict is success if and only if it exited with code zero
and no record that was delivered of its output condemns it.  What the process wrote itself while it
ran is where the output begins; after a success, there is a record among it that condemns it if and
only if that record was lost: the last one, without line feed, of a pipe that was given up, or one
that another process went on with.
-/
theorem success_iff_delivered (hs : List Happening) (v : Verification)
    (hfinished : ((opened setup directory).after hs).controller.phase = .finished v)
    (hstart : ∃ m ∈ (opened setup directory).history hs, m.started = some v.session) :
    let w := (opened setup directory).after hs
    let o := (opened setup directory).output v.session hs
    ∃ child ∈ w.children, child.session = v.session ∧ ∃ termination,
      child.ending = some termination ∧
      (w.controller.status = .success ↔
        termination = .exited 0 ∧ ∀ line ∈ o.delivered, Wire.condemns line = false) ∧
      o.own <+: o.all ∧
      (w.controller.status = .success →
        ((∃ line ∈ Framing.records o.own, Wire.condemns line = true) ↔
          ∃ line ∈ o.lost, Wire.condemns line = true)) := by
  intro w o
  have hhistory := history_history setup directory hs
  obtain ⟨child, hchild, hsession⟩ : ∃ child ∈ w.children, child.session = v.session := by
    obtain ⟨m, hm, hstarted⟩ := hstart
    have hmem : v.session ∈ w.children.map Child.session := by
      rw [sessions_children]
      exact List.mem_reverse.2 (List.mem_filterMap.2 ⟨m, hm, hstarted⟩)
    exact List.mem_map.1 hmem
  rcases hhistory.finished_cases hfinished with
    ⟨m, hm, hbegun, hfailed⟩ | ⟨before, m, later, termination, hsplit, hactive, hrequest, hissued⟩
  · -- A session that was started did not fail to start.
    obtain ⟨m₀, hm₀, hstarted⟩ := hstart
    have hsame : m₀ = m := hhistory.eq_of_begun hm₀ hm (Exchange.begun_of_started hstarted) hbegun
    rw [hsame, hfailed] at hstarted
    cases hstarted
  · rw [← hsession] at hactive hrequest hissued
    obtain ⟨hending, hrecords⟩ :=
      recordsOf_eq_delivered setup directory hchild hsplit hactive hrequest
    have hall : History (before ++ m :: later) w.controller := hsplit ▸ hhistory
    have hstatus : w.controller.status = .success ↔
        termination = .exited 0 ∧ ∀ line ∈ o.delivered, Wire.condemns line = false := by
      have hverdict := hall.split.1.success_iff_of_issued hactive hrequest hissued
      rw [hrecords, hsession] at hverdict
      exact hverdict
    have haccount := accounted setup directory hs hchild
    rw [hsession] at haccount
    have hbegins : o.own <+: o.all := Pipe.Recorded.own_begins (haccount.pipes .records)
    refine ⟨child, hchild, hsession, termination, hending, hstatus, hbegins, ?_⟩
    intro hsuccess
    constructor
    · rintro ⟨line, hline, hcondemns⟩
      rcases Output.mem_delivered_or_mem_lost hbegins hline with hdelivered | hlost
      · have hgood := (hstatus.1 hsuccess).2 line hdelivered
        rw [hcondemns] at hgood
        cases hgood
      · exact ⟨line, hlost, hcondemns⟩
    · rintro ⟨line, hlost, hcondemns⟩
      exact ⟨line, Output.mem_records_of_mem_lost hlost, hcondemns⟩

/-- The verifier exits in the middle of a line, and whoever holds its pipe lets go. -/
def releasedRun : List Happening :=
  [verifySample, .action (.write (Text.Utf8.bytes "JSON-INF-\x7b\"descr\":\"done\"\x7d")),
    .action .hold, .action (.finish (.exited 0)), .action .release] ++ readOn 1 2 ++
  [.action .drain]

theorem success_of_releasedRun :
    (sample.after releasedRun).controller.status = .success ∧
      (sample.output 1 releasedRun).lost = [] ∧
      ¬ ∃ line ∈ Framing.records (sample.output 1 releasedRun).own, Wire.condemns line = true := by
  have hstatus : (sample.after releasedRun).controller.status = .success := by decide +kernel
  have hlost : (sample.output 1 releasedRun).lost = [] := by decide +kernel
  refine ⟨hstatus, hlost, ?_⟩
  obtain ⟨child, -, -, termination, -, -, -, hsound⟩ :=
    success_iff_delivered sampleSetup sampleDirectory releasedRun ⟨1, ⟨"a.hhl"⟩, {}⟩
      (by decide +kernel) (by decide +kernel)
  intro hcondemned
  obtain ⟨line, hline, -⟩ := (hsound hstatus).1 hcondemned
  have hmem : line ∈ (sample.output 1 releasedRun).lost := hline
  rw [hlost] at hmem
  cases hmem

/-- The verifier exits in the middle of a line that is fatal, and its pipe is given up. -/
def abandonedRun : List Happening :=
  [verifySample, .action (.write (Text.Utf8.bytes "JSON-ERS-\x7b\"descr\":\"no memory\"\x7d")),
    .action .hold, .action (.finish (.exited 0)), .action .abandon, .deed 1 .tell, .action .drain]

/-- A success in spite of what the verifier wrote. -/
theorem success_of_abandonedRun :
    (sample.after abandonedRun).controller.status = .success ∧
      ∃ line ∈ Framing.records (sample.output 1 abandonedRun).own, Wire.condemns line = true := by
  decide +kernel

end Workbench
end VerifierSession
