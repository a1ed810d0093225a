import VerifierSession.Session.Controller

/-!
# Requests to a controller

Everything that a controller is asked for is a request; so is an event that it is to take.

* `Controller.respond` is what the controller does about a request;
* `Controller.Answer` says once what that can be, with one case for each kind of answer, so that
  nothing that is kept by all answers needs to look into the controller again.
-/

namespace VerifierSession

inductive Request where
  | verify (s : Surroundings) (path : Path) (flags : Flags)
  | take (e : Event)
  | shutdown
  | welcome
  | check (s : Surroundings)
  | notify (level : LogLevel) (message : String)

/-- Whether a request leaves the controller as it is, whatever it is. -/
def Request.isAside : Request → Bool
  | .welcome => true
  | .check _ => true
  | .notify .. => true
  | _ => false

def Request.givesUp : Request → Bool
  | .verify .. => true
  | .shutdown => true
  | _ => false

/-- Whether a call only tells something, in the log or in a notification. -/
def HostCall.isTold : HostCall → Bool
  | .log .. => true
  | .notify .. => true
  | _ => false

namespace Controller

/-! ## Answers -/

def respond (c : Controller) (r : Request) : Controller × List HostCall :=
  match r with
  | .verify s path flags => ((c.verify s path flags).controller, (c.verify s path flags).calls)
  | .take e => c.take e
  | .shutdown => c.shutdown
  | .welcome => (c, welcome)
  | .check s => (c, missingCalls s)
  | .notify level message => (c, [.notify level message])

/-- The calls that every start of a verification begins with. -/
def opening (c : Controller) (path : Path) : List HostCall :=
  c.clearing ++ [.clearLog, .log .info ("Starting verification of \"" ++ path.text ++ "\".")]

/-- What a request can lead to: the controller afterwards, and the calls to the host. -/
inductive Answer (c : Controller) : Request → Controller → List HostCall → Prop where
  | failed {s : Surroundings} {path : Path} {flags : Flags} {calls : List HostCall}
      {failure : StartFailure} :
      prepare s path flags = (calls, .error failure) →
      Answer c (.verify s path flags)
        ⟨.finished { session := c.nextSession, path }, (c.indicator.set .running).set .failed,
          c.nextSession + 1, false⟩
        (c.opening path ++ calls ++ failureCalls s.location failure)
  | started {s : Surroundings} {path : Path} {flags : Flags} {calls : List HostCall}
      {document : Snapshot} {command : Invocation} :
      prepare s path flags = (calls, .ok (document, command)) →
      Answer c (.verify s path flags)
        ⟨.active { session := c.nextSession, path } document, c.indicator.set .running,
          c.nextSession + 1, false⟩
        (c.opening path ++ calls)
  | stale {e : Event} : c.activeSession ≠ some e.session → Answer c (.take e) c []
  | record {v : Verification} {document : Snapshot} {line : String} :
      c.phase = .active v document →
      Answer c (.take ⟨v.session, .record line⟩)
        { c with
          phase := .active { v with record := (v.record.take document v.path line).1 } document }
        (v.record.take document v.path line).2
  | complaint {v : Verification} {document : Snapshot} {chunk : String} :
      c.phase = .active v document →
      Answer c (.take ⟨v.session, .complaint chunk⟩) c
        [.notify .error complaintNotice, .log .error chunk]
  | ended {v : Verification} {document : Snapshot} {termination : Termination} :
      c.phase = .active v document →
      Answer c (.take ⟨v.session, .ended termination⟩) (c.finish v termination).1
        (c.finish v termination).2
  | stopped :
      Answer c .shutdown
        { c with phase := .idle, indicator := c.indicator.set .idle, hoversRegistered := false }
        c.clearing
  | aside {r : Request} {calls : List HostCall} :
      r.isAside = true → (∀ call ∈ calls, call.isTold = true) → Answer c r c calls

theorem activeSession_of_active {c : Controller} {v : Verification} {document : Snapshot}
    (h : c.phase = .active v document) : c.activeSession = some v.session := by
  simp [activeSession, h]

theorem exists_of_activeSession {c : Controller} {n : Nat} (h : c.activeSession = some n) :
    ∃ v document, c.phase = .active v document ∧ v.session = n := by
  unfold activeSession at h
  split at h
  · next v document hp => exact ⟨v, document, hp, Option.some.inj h⟩
  · cases h

theorem isTold_of_mem_missingCalls (s : Surroundings) :
    ∀ call ∈ missingCalls s, call.isTold = true := by
  intro call hcall
  simp only [missingCalls, List.mem_append, List.mem_flatMap] at hcall
  rcases hcall with ⟨r, -, hr⟩ | hhint
  · simp only [HostCall.broadcast, List.mem_cons, List.not_mem_nil, or_false] at hr
    rcases hr with rfl | rfl <;> rfl
  · split at hhint
    · cases hhint
    · simp only [configHint, List.mem_append, List.mem_singleton] at hhint
      rcases hhint with hplace | rfl
      · cases hl : s.location with
        | none => simp [hl] at hplace
        | some path =>
            simp only [hl, List.mem_singleton] at hplace
            rw [hplace]
            rfl
      · rfl

section Verify

variable {s : Surroundings} {path : Path} {flags : Flags} {calls : List HostCall}

theorem verify_of_error (c : Controller) {failure : StartFailure}
    (h : prepare s path flags = (calls, .error failure)) :
    c.verify s path flags =
      { controller :=
          ⟨.finished { session := c.nextSession, path },
            (c.indicator.set .running).set .failed, c.nextSession + 1, false⟩
        calls := c.opening path ++ calls ++ failureCalls s.location failure
        killed := c.activeSession
        result := .error failure } := by
  simp only [verify, h, opening]

theorem verify_of_ok (c : Controller) {document : Snapshot} {command : Invocation}
    (h : prepare s path flags = (calls, .ok (document, command))) :
    c.verify s path flags =
      { controller :=
          ⟨.active { session := c.nextSession, path } document, c.indicator.set .running,
            c.nextSession + 1, false⟩
        calls := c.opening path ++ calls
        killed := c.activeSession
        result := .ok (c.nextSession, command) } := by
  simp only [verify, h, opening]

/-- A verification takes the next number; it is finished at once if it fails to start. -/
theorem verify_cases (c : Controller) (s : Surroundings) (path : Path) (flags : Flags) :
    (c.verify s path flags).controller.nextSession = c.nextSession + 1 ∧
      ((∃ failure, (c.verify s path flags).result = .error failure ∧
          (c.verify s path flags).controller.phase =
            .finished { session := c.nextSession, path }) ∨
        ∃ document command, (c.verify s path flags).result = .ok (c.nextSession, command) ∧
          (c.verify s path flags).controller.phase =
            .active { session := c.nextSession, path } document) := by
  cases h : prepare s path flags with
  | mk calls result =>
      cases result with
      | error failure =>
          rw [c.verify_of_error h]
          exact ⟨rfl, .inl ⟨failure, rfl, rfl⟩⟩
      | ok found =>
          rw [c.verify_of_ok h]
          exact ⟨rfl, .inr ⟨found.1, found.2, rfl, rfl⟩⟩

theorem answer_verify (c : Controller) :
    Answer c (.verify s path flags) (c.verify s path flags).controller
      (c.verify s path flags).calls := by
  cases h : prepare s path flags with
  | mk calls result =>
      cases result with
      | error failure =>
          rw [c.verify_of_error h]
          exact .failed h
      | ok found =>
          rw [c.verify_of_ok h]
          exact .started h

end Verify

/-- Taking an event of a session that is not running changes nothing. -/
theorem take_of_inactive {c : Controller} {e : Event} (h : c.activeSession ≠ some e.session) :
    c.take e = (c, []) := by
  unfold take
  split
  · next v document hp =>
      have hne : e.session ≠ v.session := by
        intro he
        exact h (by rw [activeSession_of_active hp, he])
      rw [if_neg hne]
  · rfl

theorem answer_take (c : Controller) (e : Event) :
    Answer c (.take e) (c.take e).1 (c.take e).2 := by
  by_cases hactive : c.activeSession = some e.session
  · -- The event is of the running session: what was heard decides.
    rcases exists_of_activeSession hactive with ⟨v, document, hp, hv⟩
    obtain ⟨n, output⟩ := e
    cases hv
    cases output with
    | record line =>
        simp only [take, hp, takeOutput, if_true]
        exact .record hp
    | complaint chunk =>
        simp only [take, hp, takeOutput, if_true]
        exact .complaint hp
    | ended termination =>
        simp only [take, hp, takeOutput, if_true]
        exact .ended hp
  · rw [take_of_inactive hactive]
    exact .stale hactive

theorem answer (c : Controller) (r : Request) : Answer c r (c.respond r).1 (c.respond r).2 := by
  cases r with
  | verify s path flags => exact c.answer_verify
  | take e => exact answer_take c e
  | shutdown => exact .stopped
  | welcome => exact .aside rfl (by simp [respond, welcome, HostCall.isTold])
  | check s => exact .aside rfl (isTold_of_mem_missingCalls s)
  | notify level message => exact .aside rfl (by simp [respond, HostCall.isTold])

/-! ## Lists of requests -/

def after (c : Controller) (rs : List Request) : Controller :=
  match rs with
  | [] => c
  | r :: rs => (c.respond r).1.after rs

end Controller

end VerifierSession
