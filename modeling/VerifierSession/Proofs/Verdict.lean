import VerifierSession.Proofs.Gathering

/-!
# Verdicts

A verdict is issued when the end of a running session is taken, or when a session fails to start.
The revision of the indicator tells a status that is set again from one that only stays.

* `Controller.Answer.issued_cases`: the two ways in which a verdict comes about;
* `History.issued_nodup`: no session gets two verdicts;
* `Workbench.verdict_iff_ended`: when the verdict on a session is issued, and what it is.
-/

namespace VerifierSession

namespace Controller

/-- The verdict that is issued when a controller becomes another: on which session, and what. -/
def issued (c c' : Controller) : Option (Nat × Status) :=
  if c.indicator.revision < c'.indicator.revision ∧
      (c'.status = .success ∨ c'.status = .failed) then
    c'.current.map fun v => (v.session, c'.status)
  else none

/-! ## The verdict on a verification -/

section Verdict

variable (v : Verification) (termination : Termination)

theorem verdict_of_clean (hclean : termination = .exited 0)
    (hrecord : v.record.errorsOccurred = false) :
    verdict v termination =
      (.success, .info, "Verification of \"" ++ v.path.text ++ "\" succeeded.") := by
  subst hclean
  simp [verdict, Termination.isClean, hrecord]

theorem verdict_of_not_clean (h : ¬ (termination = .exited 0 ∧ v.record.errorsOccurred = false)) :
    ∃ text, verdict v termination = (.failed, .error, text) := by
  unfold verdict
  split
  · exact ⟨_, rfl⟩
  · next hclean =>
      have hexited : termination = .exited 0 := by simpa [Termination.isClean] using hclean
      rw [if_pos]
      · exact ⟨_, rfl⟩
      · simpa [hexited] using h

/-- What is told with a verdict is its text, once to the user and once to the log. -/
theorem isTold_finish (c : Controller) :
    (c.finish v termination).2.filter HostCall.isTold =
      [.notify (verdict v termination).2.1 (verdict v termination).2.2,
        .log (verdict v termination).2.1 (verdict v termination).2.2] := by
  have hmarks : ∀ path hovers, (annotating path hovers).filter HostCall.isTold = [] := by
    intro path hovers
    unfold annotating
    split <;> rfl
  simp only [finish, List.filter_append, hmarks, List.nil_append]
  rfl

theorem issued_finish (c : Controller) :
    c.issued (c.finish v termination).1 = some (v.session, (verdict v termination).1) := by
  have hrevision : c.indicator.revision < (c.finish v termination).1.indicator.revision := by
    simp [finish]
  have hstatus : (verdict v termination).1 = .success ∨ (verdict v termination).1 = .failed := by
    by_cases h : termination = .exited 0 ∧ v.record.errorsOccurred = false
    · rw [verdict_of_clean v termination h.1 h.2]
      exact .inl rfl
    · obtain ⟨text, htext⟩ := verdict_of_not_clean v termination h
      rw [htext]
      exact .inr rfl
  unfold issued
  rw [if_pos ⟨hrevision, by simpa using hstatus⟩]
  simp [current]

end Verdict

theorem take_ended {c : Controller} {v : Verification} {document : Snapshot}
    (hp : c.phase = .active v document) (termination : Termination) :
    c.take ⟨v.session, .ended termination⟩ = c.finish v termination := by
  simp only [take, hp, takeOutput, if_true]

/-! ## How verdicts come about -/

theorem issued_of_same {c c' : Controller} {n : Nat} {status : Status}
    (h : c'.indicator = c.indicator) : c.issued c' ≠ some (n, status) := by
  unfold issued
  rw [if_neg (by simp [h])]
  simp

namespace Answer

variable {c c' : Controller} {r : Request} {calls : List HostCall} {n : Nat} {status : Status}

/-- A verdict is on a session that fails to start, or on one that runs and whose end is taken. -/
theorem issued_cases (h : c.Answer r c' calls) (hissued : c.issued c' = some (n, status)) :
    (∃ s path flags failure, r = .verify s path flags ∧
      (c.verify s path flags).result = .error failure ∧ n = c.nextSession ∧
      c'.nextSession = c.nextSession + 1 ∧ c'.activeSession = none) ∨
    ∃ termination, r = .take ⟨n, .ended termination⟩ ∧ c.activeSession = some n ∧
      c'.nextSession = c.nextSession ∧ c'.activeSession = none := by
  cases h with
  | @failed s path flags calls failure hprepare =>
      left
      refine ⟨s, path, flags, failure, rfl, ?_, ?_, rfl, rfl⟩
      · rw [c.verify_of_error hprepare]
      · simp only [issued, Controller.status, Indicator.status_set, Indicator.revision_set, current,
          Option.map_some] at hissued
        rw [if_pos ⟨by omega, .inr trivial⟩] at hissued
        cases hissued
        rfl
  | started _ => simp [issued, Controller.status] at hissued
  | stale _ => exact absurd hissued (issued_of_same rfl)
  | record _ => exact absurd hissued (issued_of_same rfl)
  | complaint _ => exact absurd hissued (issued_of_same rfl)
  | @ended v document termination hp =>
      right
      rw [c.issued_finish v termination] at hissued
      cases hissued
      exact ⟨termination, rfl, activeSession_of_active hp, rfl, by simp [activeSession]⟩
  | stopped => simp [issued, Controller.status] at hissued
  | aside _ _ => exact absurd hissued (issued_of_same rfl)

theorem not_over_of_issued (h : c.Answer r c' calls) (hissued : c.issued c' = some (n, status)) :
    ¬ c.Over n := by
  rintro ⟨hlt, hinactive⟩
  rcases h.issued_cases hissued with ⟨-, -, -, -, -, -, rfl, -, -⟩ | ⟨-, -, hactive, -, -⟩
  · exact Nat.lt_irrefl _ hlt
  · exact hinactive hactive

theorem over_of_issued (h : c.Answer r c' calls) (hissued : c.issued c' = some (n, status))
    (hlt : ∀ v, c.current = some v → v.session < c.nextSession) : c'.Over n := by
  rcases h.issued_cases hissued with
    ⟨-, -, -, -, -, -, rfl, hnext, hnone⟩ | ⟨-, -, hactive, hnext, hnone⟩
  · refine ⟨by rw [hnext]; exact Nat.lt_succ_self _, by rw [hnone]; simp⟩
  · obtain ⟨v, document, hp, hv⟩ := exists_of_activeSession hactive
    refine ⟨?_, by rw [hnone]; simp⟩
    rw [hnext, ← hv]
    exact hlt v (by simp [current, hp])

end Answer
end Controller

/-- The verdict that is issued in an exchange: on which session, and what. -/
def Exchange.issued (m : Exchange) : Option (Nat × Status) :=
  m.before.issued m.after

namespace History

variable {past later : List Exchange} {m : Exchange} {c : Controller} {n : Nat}

/-- No session gets two verdicts, and with its verdict it is over. -/
theorem issued_nodup (h : History past c) :
    ((past.filterMap Exchange.issued).map Prod.fst).Nodup ∧
      ∀ verdict ∈ past.filterMap Exchange.issued, c.Over verdict.1 := by
  induction h with
  | start => exact ⟨by simp, by simp⟩
  | @next past m hpast _ ih =>
      obtain ⟨hnodup, hover⟩ := ih
      rw [List.filterMap_append]
      cases hissued : m.issued with
      | none =>
          simp only [List.filterMap_cons, List.filterMap_nil, hissued, List.append_nil]
          exact ⟨hnodup, fun verdict hverdict => m.answer.over_kept (hover verdict hverdict)⟩
      | some new =>
          -- No verdict is issued on a session that is over, and so on none that has one.
          obtain ⟨n, status⟩ := new
          simp only [List.filterMap_cons, List.filterMap_nil, hissued]
          refine ⟨?_, ?_⟩
          · rw [List.map_append]
            refine List.nodup_append.2 ⟨hnodup, by simp, ?_⟩
            intro n₁ hn₁ n₂ hn₂ heq
            obtain ⟨old, hold, rfl⟩ := List.mem_map.1 hn₁
            simp only [List.map_cons, List.map_nil, List.mem_singleton] at hn₂
            refine m.answer.not_over_of_issued hissued ?_
            rw [← hn₂, ← heq]
            exact hover old hold
          · intro verdict hverdict
            rcases List.mem_append.1 hverdict with hold | hnew
            · exact m.answer.over_kept (hover verdict hold)
            · rw [List.mem_singleton.1 hnew]
              exact m.answer.over_of_issued hissued fun v hv => hpast.session_lt hv

/-- A started session gets its verdict when its end is taken while it runs, and only then. -/
theorem issued_iff (h : History past c) (hstart : ∃ m ∈ past, m.started = some n) (hm : m ∈ past) :
    (∃ status, m.issued = some (n, status)) ↔
      m.before.activeSession = some n ∧
        ∃ termination, m.request = .take ⟨n, .ended termination⟩ := by
  constructor
  · rintro ⟨status, hissued⟩
    rcases m.answer.issued_cases hissued with
      ⟨s, path, flags, failure, hrequest, hresult, rfl, -, -⟩ |
        ⟨termination, hrequest, hactive, -, -⟩
    · -- The start that failed would be the one that did not.
      obtain ⟨m₀, hm₀, hstarted⟩ := hstart
      have hsame : m₀ = m :=
        h.eq_of_begun hm₀ hm (Exchange.begun_of_started hstarted)
          (Exchange.begun_of_verify hrequest)
      rw [hsame] at hstarted
      simp [Exchange.started, hrequest, hresult] at hstarted
    · exact ⟨hactive, termination, hrequest⟩
  · -- Taking the end of the running session finishes it.
    rintro ⟨hactive, termination, hrequest⟩
    obtain ⟨v, document, hp, rfl⟩ := Controller.exists_of_activeSession hactive
    refine ⟨(Controller.verdict v termination).1, ?_⟩
    rw [Exchange.issued, Exchange.after, hrequest, Controller.respond, Controller.take_ended hp]
    exact m.before.issued_finish v termination

/-- Which verdict is issued with the end of a running session, and what is told. -/
theorem issued_of_ended (h : History past m.before) (hactive : m.before.activeSession = some n)
    {termination : Termination} (hrequest : m.request = .take ⟨n, .ended termination⟩) :
    let clean := termination = .exited 0 ∧
      ∀ line ∈ Exchange.recordsOf n past, Wire.condemns line = false
    (clean → m.issued = some (n, .success) ∧
      ∃ text, m.calls.filter HostCall.isTold = [.notify .info text, .log .info text]) ∧
    (¬ clean → m.issued = some (n, .failed) ∧
      ∃ text, m.calls.filter HostCall.isTold = [.notify .error text, .log .error text]) := by
  intro clean
  obtain ⟨v, document, hp, rfl⟩ := Controller.exists_of_activeSession hactive
  have hrespond : m.before.respond m.request = m.before.finish v termination := by
    rw [hrequest, Controller.respond, Controller.take_ended hp]
  have hissued : m.issued = some (v.session, (Controller.verdict v termination).1) := by
    rw [Exchange.issued, Exchange.after, hrespond]
    exact m.before.issued_finish v termination
  have htold := Controller.isTold_finish v termination m.before
  rw [← hrespond] at htold
  have hrecord : (∀ line ∈ Exchange.recordsOf v.session past, Wire.condemns line = false) ↔
      v.record.errorsOccurred = false := by
    rw [h.gathered_of_active hp, SessionRecord.errorsOccurred_gather]
    simp
  constructor
  · rintro ⟨hexited, hlines⟩
    have hverdict := Controller.verdict_of_clean v termination hexited (hrecord.1 hlines)
    rw [hverdict] at hissued htold
    exact ⟨hissued, _, htold⟩
  · intro hunclean
    obtain ⟨text, hverdict⟩ := Controller.verdict_of_not_clean v termination
      fun h => hunclean ⟨h.1, hrecord.2 h.2⟩
    rw [hverdict] at hissued htold
    exact ⟨hissued, text, htold⟩

/-- When the verdict that is issued with the end of a running session is success. -/
theorem success_iff_of_issued (h : History past m.before)
    (hactive : m.before.activeSession = some n) {termination : Termination}
    (hrequest : m.request = .take ⟨n, .ended termination⟩) {status : Status}
    (hissued : m.issued = some (n, status)) :
    status = .success ↔
      termination = .exited 0 ∧ ∀ line ∈ Exchange.recordsOf n past, Wire.condemns line = false := by
  obtain ⟨hclean, hunclean⟩ := h.issued_of_ended hactive hrequest
  constructor
  · rintro rfl
    by_contra hne
    have hfailed := (hunclean hne).1
    rw [hissued] at hfailed
    cases hfailed
  · intro hgood
    have hsuccess := (hclean hgood).1
    rw [hissued] at hsuccess
    cases hsuccess
    rfl

/-- A session that was superseded or shut down gets no verdict any more. -/
theorem issued_ne_of_givesUp (h : History (past ++ m :: later) c)
    (hstart : ∃ m' ∈ past ++ m :: later, m'.started = some n)
    (hactive : m.before.activeSession = some n) (hrequest : m.request.givesUp = true) :
    ∀ m' ∈ m :: later, ∀ status, m'.issued ≠ some (n, status) := by
  have hlt : n < m.before.nextSession := by
    obtain ⟨v, document, hp, rfl⟩ := Controller.exists_of_activeSession hactive
    exact h.split.1.session_lt (by simp [Controller.current, hp])
  have hlater := (h.over_kept (m.answer.over_of_givesUp hrequest hlt)).2
  intro m' hm' status hissued
  obtain ⟨hrunning, termination, htake⟩ :=
    (h.issued_iff hstart (List.mem_append_right _ hm')).1 ⟨status, hissued⟩
  rcases List.mem_cons.1 hm' with rfl | hrest
  · rw [htake] at hrequest
    cases hrequest
  · exact (hlater m' hrest).2 hrunning

end History

namespace Workbench

/--
The verdict on a session.  In every run, a session that was started gets a verdict exactly when
its end is taken while it runs; so it gets one at most, and none once it was superseded or shut
down.  The verdict is success if the process exited with code zero and no record taken of it is an
error or a fatal message, and failure otherwise.  With it the user is told one text, of the level
that belongs to the verdict, and the log has an entry with the same text and level.
-/
theorem verdict_iff_ended (setup : Setup) (directory : Directory) (hs : List Happening) (n : Nat)
    (hstart : ∃ m ∈ (opened setup directory).history hs, m.started = some n) :
    let exchanges := (opened setup directory).history hs
    (∀ m ∈ exchanges, (∃ status, m.issued = some (n, status)) ↔
      m.before.activeSession = some n ∧ ∃ termination, m.request = .take ⟨n, .ended termination⟩) ∧
    ((exchanges.filterMap Exchange.issued).map Prod.fst).Nodup ∧
    (∀ past m later, exchanges = past ++ m :: later → m.before.activeSession = some n →
      m.request.givesUp = true → ∀ m' ∈ m :: later, ∀ status, m'.issued ≠ some (n, status)) ∧
    ∀ past m later termination, exchanges = past ++ m :: later → m.before.activeSession = some n →
      m.request = .take ⟨n, .ended termination⟩ →
      let clean := termination = .exited 0 ∧
        ∀ line ∈ Exchange.recordsOf n past, Wire.condemns line = false
      (clean → m.issued = some (n, .success) ∧
        ∃ text, m.calls.filter HostCall.isTold = [.notify .info text, .log .info text]) ∧
      (¬ clean → m.issued = some (n, .failed) ∧
        ∃ text, m.calls.filter HostCall.isTold = [.notify .error text, .log .error text]) := by
  intro exchanges
  have hhistory : History exchanges ((opened setup directory).after hs).controller :=
    history_history setup directory hs
  refine ⟨fun m hm => hhistory.issued_iff hstart hm, hhistory.issued_nodup.1, ?_, ?_⟩
  · intro past m later hsplit hactive hrequest
    have hstart' : ∃ m' ∈ past ++ m :: later, m'.started = some n := by
      rw [← hsplit]
      exact hstart
    exact (hsplit ▸ hhistory).issued_ne_of_givesUp hstart' hactive hrequest
  · intro past m later termination hsplit hactive hrequest
    have hall : History (past ++ m :: later) ((opened setup directory).after hs).controller :=
      hsplit ▸ hhistory
    exact hall.split.1.issued_of_ended hactive hrequest

/-- A verifier that tells of something fatal and then exits with code zero. -/
def fatalRun : List Happening :=
  [verifySample, .action (.write (Text.Utf8.bytes "JSON-ERS-\x7b\"descr\":\"no memory\"\x7d\n")),
    .action (.finish (.exited 0))] ++ readOn 1 2 ++ [.action .drain]

theorem verdict_of_fatalRun :
    (∃ m ∈ sample.history fatalRun, m.started = some 1) ∧
      (∀ m ∈ sample.history fatalRun, (∃ status, m.issued = some (1, status)) ↔
        m.before.activeSession = some 1 ∧
          ∃ termination, m.request = .take ⟨1, .ended termination⟩) ∧
      (sample.history fatalRun).filterMap Exchange.issued = [(1, .failed)] ∧
      ∃ m ∈ sample.history fatalRun, m.request = .take ⟨1, .ended (.exited 0)⟩ ∧
        (∃ text, m.calls.filter HostCall.isTold = [.notify .error text, .log .error text]) ∧
        m.calls = [.notify .error "Verification failed.", .log .error "Verification failed."] := by
  have hstart : ∃ m ∈ sample.history fatalRun, m.started = some 1 := by decide +kernel
  have hissued : (sample.history fatalRun).filterMap Exchange.issued = [(1, .failed)] := by
    decide +kernel
  obtain ⟨hiff, -, -, htold⟩ := verdict_iff_ended sampleSetup sampleDirectory fatalRun 1 hstart
  obtain ⟨m, hm, hend, hactive, hcalls⟩ : ∃ m ∈ sample.history fatalRun,
      m.event? = some ⟨1, .ended (.exited 0)⟩ ∧ m.before.activeSession = some 1 ∧
        m.calls =
          [.notify .error "Verification failed.", .log .error "Verification failed."] := by
    decide +kernel
  have hrequest := Exchange.event?_eq_some.1 hend
  obtain ⟨past, later, hsplit⟩ := List.append_of_mem hm
  obtain ⟨hclean, hunclean⟩ := htold past m later (.exited 0) hsplit hactive hrequest
  refine ⟨hstart, hiff, hissued, m, hm, hrequest, (hunclean ?_).2, hcalls⟩
  intro hgood
  have hmem := List.mem_filterMap.2 ⟨m, hm, (hclean hgood).1⟩
  rw [hissued] at hmem
  cases List.mem_singleton.1 hmem

end Workbench
end VerifierSession
