import VerifierSession.Proofs.Verdict

/-!
# Sessions with other numbers

A controller tells sessions apart by their numbers, and statuses by the revision of the indicator.
Nothing else is made of them: if all numbers of sessions are larger by `k` and all revisions by `r`,
a controller answers in the same way, and what is shown of it is the same.

* `Controller.view` is what is shown of a controller, but for the number of the session;
* `Controller.respond_shift`: an answer to a request, with other numbers;
* `Controller.course_shift`: exchanges with other numbers, and `Exchange.sight_shift`: what is seen
  of them.
-/

namespace VerifierSession

/-! ## What is shown -/

/-- What is shown of a controller, but for the number of the session. -/
structure View where
  frame : Frame
  animated : Bool
  running : Bool
  path : Option Path
  diagnostics : List Diagnostic
  warnings : Nat
  deriving DecidableEq, Repr

def Controller.view (c : Controller) : View where
  frame := c.indicator.frame
  animated := c.indicator.isAnimating
  running := c.activeSession.isSome
  path := c.current.map Verification.path
  diagnostics := c.record.diagnostics
  warnings := c.record.warnings

/-- What is seen of an exchange: the calls, what is shown afterwards, and a verdict. -/
structure Sight where
  calls : List HostCall
  view : View
  verdict : Option Status
  deriving DecidableEq, Repr

def Exchange.sight (m : Exchange) : Sight where
  calls := m.calls
  view := m.after.view
  verdict := m.issued.map Prod.snd

/-! ## Larger numbers -/

/-- The event, of a session whose number is larger by `k`. -/
def Event.shift (k : Nat) (e : Event) : Event :=
  { e with session := e.session + k }

/-- The request, with a number of the session that is larger by `k`. -/
def Request.shift (k : Nat) : Request → Request
  | .take e => .take (e.shift k)
  | r => r

/-- The verification, with a number that is larger by `k`. -/
def Verification.shift (k : Nat) (v : Verification) : Verification :=
  { v with session := v.session + k }

/-- The phase, with a number of the session that is larger by `k`. -/
def Phase.shift (k : Nat) : Phase → Phase
  | .idle => .idle
  | .active v document => .active (v.shift k) document
  | .finished v => .finished (v.shift k)

/-- The indicator, with a revision that is larger by `r`. -/
def Indicator.shift (r : Nat) (i : Indicator) : Indicator :=
  { i with revision := i.revision + r }

/-- The controller, with numbers of sessions that are larger by `k`, and a revision by `r`. -/
def Controller.shift (k r : Nat) (c : Controller) : Controller :=
  { c with
    phase := c.phase.shift k
    indicator := c.indicator.shift r
    nextSession := c.nextSession + k }

/-- The exchange, with numbers of sessions that are larger by `k`, and a revision by `r`. -/
def Exchange.shift (k r : Nat) (m : Exchange) : Exchange :=
  ⟨m.before.shift k r, m.request.shift k⟩

theorem Indicator.set_shift (i : Indicator) (r : Nat) (status : Status) :
    (i.shift r).set status = (i.set status).shift r := by
  have hrevision : i.revision + r + 1 = i.revision + 1 + r := Nat.add_right_comm _ _ _
  cases status <;> simp [set, run, settle, stopTicker, tell, shift, hrevision]

/-- Two indicators show the same once they are set, and only the revision tells them apart. -/
theorem Indicator.shift_set (i₁ i₂ : Indicator) (status : Status) :
    (i₁.set status).shift i₂.revision = (i₂.set status).shift i₁.revision := by
  have hrevision : i₁.revision + 1 + i₂.revision = i₂.revision + 1 + i₁.revision := by omega
  cases status <;> simp [set, run, settle, stopTicker, tell, shift, hrevision]

namespace Controller

variable (c : Controller) (k r : Nat)

@[simp] theorem current_shift : (c.shift k r).current = c.current.map (Verification.shift k) := by
  obtain ⟨phase, indicator, next, hovers⟩ := c
  cases phase <;> rfl

@[simp] theorem activeSession_shift :
    (c.shift k r).activeSession = c.activeSession.map (· + k) := by
  obtain ⟨phase, indicator, next, hovers⟩ := c
  cases phase <;> rfl

@[simp] theorem record_shift : (c.shift k r).record = c.record := by
  simp only [record, current_shift, Option.map_map]
  rfl

@[simp] theorem status_shift : (c.shift k r).status = c.status := rfl

@[simp] theorem view_shift : (c.shift k r).view = c.view := by
  simp only [view, activeSession_shift, current_shift, record_shift, Option.map_map,
    Option.isSome_map]
  rfl

theorem issued_shift (c' : Controller) :
    (c.shift k r).issued (c'.shift k r) =
      (c.issued c').map fun verdict => (verdict.1 + k, verdict.2) := by
  -- Revisions are only ever compared, and the comparison does not change.
  have hrevision : (c.shift k r).indicator.revision < (c'.shift k r).indicator.revision ↔
      c.indicator.revision < c'.indicator.revision := Nat.add_lt_add_iff_right
  simp only [issued, hrevision, status_shift, current_shift]
  split
  · simp only [Option.map_map]
    rfl
  · rfl

/-! ## Answers -/

theorem verify_shift (s : Surroundings) (path : Path) (flags : Flags) :
    ((c.shift k r).verify s path flags).controller =
        (c.verify s path flags).controller.shift k r ∧
      ((c.shift k r).verify s path flags).calls = (c.verify s path flags).calls := by
  have hnext : c.nextSession + k + 1 = c.nextSession + 1 + k := Nat.add_right_comm _ _ _
  have hset : ∀ status, (c.shift k r).indicator.set status = (c.indicator.set status).shift r :=
    fun status => c.indicator.set_shift r status
  cases h : prepare s path flags with
  | mk calls result =>
      cases result with
      | error failure =>
          rw [verify_of_error _ h, verify_of_error _ h, hset, Indicator.set_shift]
          exact ⟨by simp [shift, Phase.shift, Verification.shift, hnext], rfl⟩
      | ok found =>
          rw [verify_of_ok _ h, verify_of_ok _ h, hset]
          exact ⟨by simp [shift, Phase.shift, Verification.shift, hnext], rfl⟩

theorem finish_shift (v : Verification) (termination : Termination) :
    (c.shift k r).finish (v.shift k) termination =
      ((c.finish v termination).1.shift k r, (c.finish v termination).2) := by
  have hset : ∀ status, (c.shift k r).indicator.set status = (c.indicator.set status).shift r :=
    fun status => c.indicator.set_shift r status
  have hverdict : verdict (v.shift k) termination = verdict v termination := rfl
  simp only [finish, hset, hverdict]
  rfl

theorem take_shift (e : Event) :
    (c.shift k r).take (e.shift k) = ((c.take e).1.shift k r, (c.take e).2) := by
  obtain ⟨n, output⟩ := e
  -- Numbers are compared once, with that of the running session; adding `k` keeps them apart.
  by_cases hactive : c.activeSession = some n
  · obtain ⟨v, document, hp, rfl⟩ := exists_of_activeSession hactive
    have hp' : (c.shift k r).phase = .active (v.shift k) document := by simp [shift, hp, Phase.shift]
    have htaken : (c.shift k r).take (Event.shift k ⟨v.session, output⟩) =
        (c.shift k r).takeOutput (v.shift k) document output := by
      simp [take, hp', Event.shift, Verification.shift]
    have htook : c.take ⟨v.session, output⟩ = c.takeOutput v document output := by
      simp [take, hp]
    rw [htaken, htook]
    -- What was heard decides, and no number is in it.
    cases output with
    | record line => rfl
    | complaint chunk => rfl
    | ended termination => exact c.finish_shift k r v termination
  · have hactive' : (c.shift k r).activeSession ≠ some (Event.shift k ⟨n, output⟩).session := by
      simpa [Event.shift] using hactive
    rw [take_of_inactive hactive', take_of_inactive (e := ⟨n, output⟩) hactive]

theorem respond_shift (request : Request) :
    (c.shift k r).respond (request.shift k) =
      ((c.respond request).1.shift k r, (c.respond request).2) := by
  cases request with
  | verify s path flags =>
      obtain ⟨hcontroller, hcalls⟩ := c.verify_shift k r s path flags
      exact Prod.ext hcontroller hcalls
  | take e => exact c.take_shift k r e
  | shutdown =>
      have hset : (c.shift k r).indicator.set .idle = (c.indicator.set .idle).shift r :=
        c.indicator.set_shift r .idle
      simp only [Request.shift, respond, shutdown, hset]
      rfl
  | _ => rfl

end Controller

/-! ## Exchanges -/

namespace Exchange

variable (m : Exchange) (k r : Nat)

theorem after_shift : (m.shift k r).after = m.after.shift k r :=
  congrArg Prod.fst (m.before.respond_shift k r m.request)

theorem calls_shift : (m.shift k r).calls = m.calls := by
  have hcalls := congrArg Prod.snd (m.before.respond_shift k r m.request)
  exact hcalls

@[simp] theorem sight_shift : (m.shift k r).sight = m.sight := by
  have hissued : (m.shift k r).issued = m.issued.map fun verdict => (verdict.1 + k, verdict.2) := by
    rw [issued, after_shift]
    exact m.before.issued_shift k r m.after
  simp only [sight, after_shift, calls_shift, hissued, Controller.view_shift, Option.map_map]
  rfl

end Exchange

namespace Controller

variable (c : Controller) (k r : Nat)

/-- With other numbers, the same requests lead to the same exchanges. -/
theorem course_shift (rs : List Request) :
    (c.shift k r).course (rs.map (Request.shift k)) = (c.course rs).map (Exchange.shift k r) ∧
      (c.shift k r).after (rs.map (Request.shift k)) = (c.after rs).shift k r := by
  -- Each request goes on from where the one before it led to, with the same shift.
  induction rs generalizing c with
  | nil => exact ⟨rfl, rfl⟩
  | cons request rs ih =>
      have hfirst : ((c.shift k r).respond (request.shift k)).1 =
          (c.respond request).1.shift k r := congrArg Prod.fst (c.respond_shift k r request)
      obtain ⟨hcourse, hafter⟩ := ih (c.respond request).1
      refine ⟨?_, ?_⟩
      · simp only [List.map_cons, course, hfirst, hcourse]
        rfl
      · simp only [List.map_cons, after, hfirst, hafter]

end Controller
end VerifierSession
