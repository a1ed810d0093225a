import VerifierSession.Proofs.Delivery

/-!
# Findings and warnings

What is shown of a session is made from the lines that were taken of it, and from nothing else: the
errors among them are its findings, each placed in the document that was opened for the session, and
the warnings among them are counted.

* `Controller.Answer.record_eq`: what alters neither findings nor warnings;
* `Workbench.verify_of_mem_history`: the directory in which a verification was asked for;
* `Workbench.recordsOf_effective_shown`: the lines taken while a session runs are all its lines;
* `Workbench.findings_eq_errors`: findings and warnings after every run.
-/

namespace VerifierSession

/-- Whether a line of output adds a finding or counts as a warning. -/
def Wire.counts (line : String) : Bool :=
  (error? line).isSome || warns line

theorem SessionRecord.take_of_not_counts (r : SessionRecord) (document : Snapshot) (path : Path)
    {line : String} (h : Wire.counts line = false) :
    (r.take document path line).1.diagnostics = r.diagnostics ∧
      (r.take document path line).1.warnings = r.warnings := by
  obtain ⟨herror, hwarns⟩ := Bool.or_eq_false_iff.1 h
  have hnone : Wire.error? line = none := by simpa using herror
  rw [take_fst, hnone, hwarns]
  exact ⟨List.append_nil _, rfl⟩

/--
Only a verification, a shutdown and a line of the running session that counts alter what is found:
complaints, other lines, ends and events of other sessions do not.
-/
theorem Controller.Answer.record_eq {c c' : Controller} {r : Request} {calls : List HostCall}
    (h : c.Answer r c' calls) (hgives : r.givesUp = false)
    (hline : ∀ n line, r = .take ⟨n, .record line⟩ → c.activeSession = some n →
      Wire.counts line = false) :
    c'.record.diagnostics = c.record.diagnostics ∧ c'.record.warnings = c.record.warnings := by
  cases h with
  | failed _ => cases hgives
  | started _ => cases hgives
  | stale _ => exact ⟨rfl, rfl⟩
  | @record v document line hp =>
      have hcounts : Wire.counts line = false :=
        hline v.session line rfl (activeSession_of_active hp)
      have hbefore : c.record = v.record := by simp [Controller.record, current, hp]
      rw [hbefore]
      exact v.record.take_of_not_counts document v.path hcounts
  | complaint _ => exact ⟨rfl, rfl⟩
  | @ended v document termination hp =>
      have hbefore : c.record = v.record := by simp [Controller.record, current, hp]
      rw [hbefore]
      exact ⟨rfl, rfl⟩
  | stopped => cases hgives
  | aside _ _ => exact ⟨rfl, rfl⟩

namespace Workbench

/-! ## Where a verification was asked for -/

theorem setup_befall (w : Workbench) (h : Happening) : (w.befall h).1.setup = w.setup := by
  have htouch : ∀ a, (w.touch a).setup = w.setup := fun a => by rw [touch_eq]
  cases h with
  | deed n d =>
      change (w.deed n d).setup = _
      rw [deed_eq]
  | action a =>
      cases a with
      | verify path flags =>
          simp only [befall, act, verify]
          split <;> exact htouch _
      | poll budget => rfl
      | drain => rfl
      | complete => rfl
      | welcome => rfl
      | check => rfl
      | notify level message => rfl
      | store path bytes => rfl
      | delete path => rfl
      | inspect => rfl
      | _ => exact htouch _

theorem setup_after (w : Workbench) (hs : List Happening) : (w.after hs).setup = w.setup := by
  induction hs generalizing w with
  | nil => rfl
  | cons h hs ih => exact (ih _).trans (w.setup_befall h)

/-- A verification in a run was asked for by an action, in the directory as it was then. -/
theorem verify_of_mem_history {w : Workbench} {hs : List Happening} {m : Exchange}
    (hm : m ∈ w.history hs) {s : Surroundings} {path : Path} {flags : Flags}
    (hrequest : m.request = .verify s path flags) :
    ∃ before later, hs = before ++ .action (.verify path flags) :: later ∧
      m.before = (w.after before).controller ∧
      s = w.setup.surroundings (w.after before).directory := by
  induction hs generalizing w with
  | nil => cases hm
  | cons h hs ih =>
      rcases List.mem_append.1 hm with hfirst | hrest
      · -- The first happening is the action.
        cases h with
        | deed n d => cases hfirst
        | action a =>
            have hasked : Request.verify s path flags ∈ w.requests a := by
              rw [← hrequest, ← Controller.request_course w.controller (w.requests a)]
              exact List.mem_map_of_mem hfirst
            rcases givesUp_of_mem_requests hasked rfl with ⟨path', flags', rfl⟩ | rfl
            · have heq := List.mem_singleton.1 hasked
              cases heq
              rw [List.mem_singleton.1 hfirst]
              exact ⟨[], hs, rfl, rfl, rfl⟩
            · have heq := List.mem_singleton.1 hasked
              cases heq
      · obtain ⟨before, later, rfl, hbefore, hs'⟩ := ih hrest
        rw [setup_befall] at hs'
        exact ⟨h :: before, later, rfl, hbefore, hs'⟩

/-! ## The lines of a session -/

section Shown

variable {setup : Setup} {directory : Directory} {hs : List Happening} {n : Nat}

theorem ne_of_mem_taken_later {before later : List Exchange} {m : Exchange}
    {termination : Termination}
    (hsplit : (opened setup directory).history hs = before ++ m :: later)
    (hrequest : m.request = .take ⟨n, .ended termination⟩) :
    ∀ e ∈ Exchange.taken later, e.session ≠ n := by
  intro e he hn
  have hend := arrivals_pairwise setup directory hs n
  rw [arrivals_filter_eq setup directory hsplit hrequest] at hend
  have hlast := (List.pairwise_cons.1 (List.pairwise_append.1 hend).2.1).1 e
    (List.mem_append_left _ (List.mem_filter.2 ⟨he, by simpa using hn⟩))
  cases hlast

theorem ne_of_mem_taken_of_failed {m : Exchange}
    (hm : m ∈ (opened setup directory).history hs) (hbegun : m.begun = some n)
    (hfailed : m.started = none) :
    ∀ e ∈ Exchange.taken ((opened setup directory).history hs), e.session ≠ n := by
  intro e he hn
  -- A process is there for sessions only that were started.
  have hmem := exists_child_of_mem_arrivals setup directory hs
    (mem_arrivals_of_mem_taken setup directory hs he)
  rw [sessions_children, List.mem_reverse] at hmem
  obtain ⟨m', hm', hstarted⟩ := List.mem_filterMap.1 hmem
  rw [hn] at hstarted
  have hsame : m' = m := (history_history setup directory hs).eq_of_begun hm' hm
    (Exchange.begun_of_started hstarted) hbegun
  rw [hsame, hfailed] at hstarted
  cases hstarted

/-- The lines taken of the session that is shown while it runs are all that are taken of it. -/
theorem recordsOf_effective_shown {v : Verification}
    (hv : ((opened setup directory).after hs).controller.current = some v)
    (hsession : v.session = n) :
    Exchange.recordsOf n (Exchange.effective ((opened setup directory).history hs)) =
      Exchange.recordsOf n ((opened setup directory).history hs) := by
  have hhistory := history_history setup directory hs
  apply Exchange.recordsOf_effective
  intro m hm e he hn
  by_cases hactive : ((opened setup directory).after hs).controller.activeSession = some n
  · exact hhistory.not_isStale hactive hm he hn
  · have hmem : e ∈ Exchange.taken ((opened setup directory).history hs) :=
      Exchange.mem_taken.2 ⟨m, hm, he⟩
    have hfinished : ((opened setup directory).after hs).controller.phase = .finished v := by
      simp only [Controller.current, Controller.activeSession] at hv hactive
      split at hv
      · cases hv
      · next hp =>
          cases hv
          simp [hp, hsession] at hactive
      · next hp =>
          cases hv
          exact hp
    rcases hhistory.finished_cases hfinished with
      ⟨m', hm', hbegun, hfailed⟩ | ⟨before, m', later, termination, hsplit, hrunning, hrequest, -⟩
    · rw [hsession] at hbegun
      exact absurd hn (ne_of_mem_taken_of_failed hm' hbegun hfailed e hmem)
    · rw [hsession] at hrunning hrequest
      have hall : History (before ++ m' :: later) _ := hsplit ▸ hhistory
      rw [hsplit] at hm
      -- Before its end the session was running, and after it nothing is taken of it.
      rcases List.mem_append.1 hm with hbefore | hrest
      · exact hall.split.1.not_isStale hrunning hbefore he hn
      · rcases List.mem_cons.1 hrest with rfl | hlater
        · simp [Exchange.isStale, hrequest, hrunning]
        · exact absurd hn (ne_of_mem_taken_later hsplit hrequest e
            (Exchange.mem_taken.2 ⟨m, hlater, he⟩))

end Shown

variable (setup : Setup) (directory : Directory)

/--
What is found in a session.  After every run in which a session is shown, its findings are the
errors among the lines that were taken of it while it ran, in order, each placed in the document
that was read when the verification was asked for, and the warnings are those among these lines;
they are all the lines that were taken of it.  Nothing else that is taken or asked for alters
findings or warnings, unless a session is given up.
-/
theorem findings_eq_errors (hs : List Happening) (v : Verification)
    (hv : ((opened setup directory).after hs).controller.current = some v) :
    let exchanges := (opened setup directory).history hs
    let lines := Exchange.recordsOf v.session (Exchange.effective exchanges)
    (∃ before flags later document, hs = before ++ .action (.verify v.path flags) :: later ∧
      ((opened setup directory).after before).controller.nextSession = v.session ∧
      ((∃ m ∈ exchanges, m.started = some v.session) →
        setup.openText ((opened setup directory).after before).directory v.path = .ok document) ∧
      v.record.diagnostics = (lines.filterMap Wire.error?).map (Diagnostic.placed document)) ∧
    v.record.warnings = lines.countP Wire.warns ∧
    lines = Exchange.recordsOf v.session exchanges ∧
    ∀ m ∈ exchanges, m.request.givesUp = false →
      (∀ n line, m.request = .take ⟨n, .record line⟩ → m.before.activeSession = some n →
        Wire.counts line = false) →
      m.after.record.diagnostics = m.before.record.diagnostics ∧
        m.after.record.warnings = m.before.record.warnings := by
  intro exchanges lines
  have hhistory := history_history setup directory hs
  obtain ⟨document, ⟨m, hm, s, flags, hrequest, hbegun, hopened⟩, -, hrecord⟩ :=
    hhistory.gathered v hv
  rw [SessionRecord.gather_eq] at hrecord
  refine ⟨?_, ?_, recordsOf_effective_shown hv rfl, ?_⟩
  · obtain ⟨before, later, hsplit, hbefore, hsurroundings⟩ := verify_of_mem_history hm hrequest
    refine ⟨before, flags, later, document, hsplit, ?_, ?_, ?_⟩
    · rw [← hbefore]
      exact (Exchange.begun_lt hbegun).1.symm
    · rintro ⟨m', hm', hstarted⟩
      have hsame : m' = m :=
        hhistory.eq_of_begun hm' hm (Exchange.begun_of_started hstarted) hbegun
      have hdocument := hopened (hsame ▸ hstarted)
      rw [hsurroundings] at hdocument
      exact hdocument
    · rw [hrecord]
  · rw [hrecord]
  · intro m' _ hgives hline
    exact m'.answer.record_eq hgives hline

/--
The document is verified: an error at the start of the document, which changes meanwhile, a warning
and a complaint.
-/
def mixedOn (session : Nat) : List Happening :=
  [verifySample, .action (.store ⟨"a.hhl"⟩ (Text.Utf8.bytes "method")),
    .action (.write (Text.Utf8.bytes
      ("\x7b\"level\":\"ERR\",\"message\":\"m\",\"extra\":\x7b\"offsetLeft\":0,\"offsetRight\":0," ++
        "\"title\":null,\"quantifiersRemoved\":null,\"whileRule\":null\x7d\x7d\n"))),
    .action (.write (Text.Utf8.bytes "JSON-WRN-\x7b\"descr\":\"slow\"\x7d\n")),
    .action (.complain (Text.Utf8.bytes "trace\n"))] ++ readOn session 2 ++ [.action .drain]

def mixedRun : List Happening :=
  mixedOn 1

def mixedFindings : Verification where
  session := 1
  path := ⟨"a.hhl"⟩
  record :=
    { diagnostics :=
        [{ severity := .error, message := "m", timestamp := none,
           attributes := [.positioned 0 0 none],
           span := some ⟨⟨0, 0⟩, ⟨0, 0⟩, by decide⟩ }]
      warnings := 1
      errorsOccurred := true }

theorem findings_of_mixedRun :
    let lines := Exchange.recordsOf 1 (Exchange.effective (sample.history mixedRun))
    (sample.after mixedRun).controller.current = some mixedFindings ∧
      (∃ document, mixedFindings.record.diagnostics =
        (lines.filterMap Wire.error?).map (Diagnostic.placed document)) ∧
      mixedFindings.record.warnings = lines.countP Wire.warns := by
  have hshown : (sample.after mixedRun).controller.current = some mixedFindings := by
    decide +kernel
  obtain ⟨⟨before, flags, later, document, -, -, -, hdiagnostics⟩, hwarnings, -, -⟩ :=
    findings_eq_errors sampleSetup sampleDirectory mixedRun mixedFindings hshown
  exact ⟨hshown, ⟨document, hdiagnostics⟩, hwarnings⟩

end Workbench
end VerifierSession
