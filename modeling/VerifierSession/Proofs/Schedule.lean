import VerifierSession.Proofs.Attention
import VerifierSession.Proofs.Settling

/-!
# Schedules

Events are taken when somebody asks for them.  When that is makes no difference to those that
arrive: each is taken once, in the order in which they arrive, and what they come to does not depend
on when they were taken.

What arrives may depend on it, though: a reader that finds no room in the queue has to wait, and
meanwhile others hand something in, or more is written than it takes off at once.

* `Workbench.production`: what is done to processes in a run, where readers without room do nothing;
* `Workbench.arrivals_eq_yield`: what arrives in a run is said by its production;
* `Workbench.Serves.outcome_eq`: what a run comes to is said by what arrives, once none waits.
-/

namespace VerifierSession

/-- Whether nothing is asked for in a happening, except that events are taken. -/
def Happening.onlyTakes : Happening → Bool
  | .action (.verify ..) | .action .shutdown => false
  | .action .welcome | .action .check | .action (.notify ..) => false
  | _ => true

namespace Workbench

/-! ## What is produced -/

/-- What is done to processes in a happening, and to that of which session. -/
def done (w : Workbench) (h : Happening) : Option (Nat × List Deed) :=
  match h with
  | .action a => w.affected a
  | .deed n d => if d.hands && w.queue.room == 0 then none else some (n, [d])

def production (w : Workbench) (hs : List Happening) : List (Nat × List Deed) :=
  match hs with
  | [] => []
  | h :: hs => (w.done h).toList ++ (w.befall h).1.production hs

/-- What becomes of processes, and what is heard of them. -/
def yield (children : List Child) (production : List (Nat × List Deed)) :
    List Child × List Event :=
  match production with
  | [] => (children, [])
  | (n, ds) :: production =>
      let befallen := children.map fun c => c.undergoAll (if c.session = n then ds else [])
      let (left, events) := yield (befallen.map Prod.fst) production
      (left, befallen.flatMap Prod.snd ++ events)

theorem befalling_eq (w : Workbench) (n : Nat) (h : Happening) :
    w.befalling n h =
      match w.done h with
      | some (m, ds) => if n = m then ds else []
      | none => [] := by
  cases h with
  | action a => rfl
  | deed m d =>
      simp only [befalling, done]
      split <;> rfl

section Takes

variable {w : Workbench} {hs : List Happening}

theorem launched_of_onlyTakes {h : Happening} (htakes : h.onlyTakes = true) :
    w.launched h = [] := by
  cases h with
  | deed n d => rfl
  | action a => cases a <;> first | rfl | cases htakes

/--
What arrives in a run that starts no process, and what becomes of the processes, is said by what is
done to them.
-/
theorem arrivals_eq_yield (htakes : ∀ h ∈ hs, h.onlyTakes = true) :
    ((w.after hs).children, w.arrivals hs) = yield w.children (w.production hs) := by
  induction hs generalizing w with
  | nil => rfl
  | cons h hs ih =>
      have hlater := ih (w := (w.befall h).1) fun h' hh' => htakes h' (List.mem_cons_of_mem _ hh')
      have hchildren := w.children_befall h
      rw [launched_of_onlyTakes (htakes h List.mem_cons_self), List.nil_append] at hchildren
      simp only [after, arrivals, production]
      cases hdone : w.done h with
      | none =>
          -- Nothing is done to any process.
          have hidle : ∀ n, w.befalling n h = [] := by
            intro n
            rw [befalling_eq, hdone]
          have hsame : (w.befall h).1.children = w.children := by
            simp [hchildren, hidle, Child.undergoAll]
          have hnone : w.arriving h = [] := by
            simp [arriving, hidle, Child.undergoAll]
          rw [hsame] at hlater
          rw [hnone, List.nil_append, Option.toList_none, List.nil_append, ← hlater]
      | some found =>
          obtain ⟨n, ds⟩ := found
          have hbefalling : ∀ m, w.befalling m h = if m = n then ds else [] := by
            intro m
            rw [befalling_eq, hdone]
          simp only [hbefalling] at hchildren
          rw [Option.toList_some, List.singleton_append, yield, List.map_map]
          simp only [Function.comp_def, ← hchildren, ← hlater, arriving, hbefalling,
            List.flatMap_map]

/-! ## What is taken -/

theorem requests_of_onlyTakes {a : Action} (htakes : (Happening.action a).onlyTakes = true) :
    ∃ es : List Event, w.requests a = es.map Request.take := by
  cases a with
  | poll budget => exact ⟨_, rfl⟩
  | drain => exact ⟨_, rfl⟩
  | complete => exact ⟨_, rfl⟩
  | abandon => exact ⟨_, rfl⟩
  | verify path flags => cases htakes
  | shutdown => cases htakes
  | welcome => cases htakes
  | check => cases htakes
  | notify level message => cases htakes
  | _ => exact ⟨[], rfl⟩

/-- Where nothing but taking events is asked for, those that are taken say what is asked for. -/
theorem request_of_onlyTakes (htakes : ∀ h ∈ hs, h.onlyTakes = true) :
    (w.history hs).map Exchange.request = (Exchange.taken (w.history hs)).map .take := by
  refine Exchange.request_eq_taken ?_
  induction hs generalizing w with
  | nil => simp [history]
  | cons h hs ih =>
      intro m hm
      rcases List.mem_append.1 hm with hfirst | hlater
      · cases h with
        | deed n d => cases hfirst
        | action a =>
            obtain ⟨es, hes⟩ := requests_of_onlyTakes (w := w) (htakes _ List.mem_cons_self)
            have hrequest : m.request ∈ es.map Request.take := by
              rw [← hes, ← Controller.request_course w.controller (w.requests a)]
              exact List.mem_map_of_mem hfirst
            obtain ⟨e, -, he⟩ := List.mem_map.1 hrequest
            exact ⟨e, he.symm⟩
      · exact ih (fun h' hh' => htakes h' (List.mem_cons_of_mem _ hh')) m hlater

/-- A run in which events are taken, and nothing else is asked for, until none waits. -/
structure Serves (w : Workbench) (hs : List Happening) : Prop where
  takes : ∀ h ∈ hs, h.onlyTakes = true
  spent : (w.after hs).queue.events = []

/-- What such a run comes to is what becomes of the controller when it takes the same events. -/
theorem takeList_taken (htakes : ∀ h ∈ hs, h.onlyTakes = true) :
    ((w.after hs).controller, w.calls hs) =
      w.controller.takeList (Exchange.taken (w.history hs)) := by
  obtain ⟨hcourse, hafter⟩ := w.history_eq_course hs
  rw [request_of_onlyTakes htakes] at hcourse hafter
  rw [calls_eq, hafter, Controller.takeList_eq, ← hcourse]

theorem Serves.outcome_eq (hw : w.Numbered) (hserves : w.Serves hs) :
    ((w.after hs).controller, w.calls hs) =
      w.controller.takeList (w.queue.events ++ w.arrivals hs) := by
  have hall := taken_append_queue hw hs
  rw [hserves.spent, List.append_nil] at hall
  rw [takeList_taken hserves.takes, hall]

end Takes

/-! ## The queue -/

variable (setup : Setup) (directory : Directory)

/--
The queue loses, repeats and reorders nothing.  In any run, what was taken and what still waits is
what arrived, in order; as many events are polled as are asked for, or as wait, which are never more
than there is room for; and draining leaves none, nor anything that a reader could go on with.  So
it does not matter when events are taken: two runs in which nothing else is asked for come to the
same calls and the same controller once none waits, if the same events arrive in them.  They do if
the same is done to the processes, in whatever turns.
-/
theorem queue_keeps_order (hs : List Happening) :
    let w := (opened setup directory).after hs
    Exchange.taken ((opened setup directory).history hs) ++ w.queue.events =
        (opened setup directory).arrivals hs ∧
      w.queue.events.length ≤ queueCapacity ∧
      (∀ budget,
        (w.act (.poll budget)).2.2 = .handled (min budget w.queue.events.length) ∧
          Exchange.taken (w.exchanges (.action (.poll budget))) = w.queue.events.take budget) ∧
      (w.act .drain).1.queue.events = [] ∧
      (∀ drained, (w.step .drain drained).1.AtRest) ∧
      (∀ hs₁ hs₂, w.Serves hs₁ → w.Serves hs₂ → w.arrivals hs₁ = w.arrivals hs₂ →
        w.calls hs₁ = w.calls hs₂ ∧ (w.after hs₁).controller = (w.after hs₂).controller) ∧
      ∀ hs₁ hs₂, w.Serves hs₁ → w.Serves hs₂ → w.production hs₁ = w.production hs₂ →
        w.arrivals hs₁ = w.arrivals hs₂ ∧ (w.after hs₁).children = (w.after hs₂).children := by
  intro w
  refine ⟨?_, w.queue.bounded, ?_, rfl, ?_, ?_, ?_⟩
  · exact taken_append_queue_opened setup directory hs
  · intro budget
    have hcount : (w.act (.poll budget)).2.2 = .handled (w.queue.events.take budget).length := rfl
    refine ⟨by rw [hcount, List.length_take], ?_⟩
    exact taken_course_take w.controller (w.queue.events.take budget)
  · intro drained
    exact w.atRest_exhaust
  · intro hs₁ hs₂ h₁ h₂ hsame
    have hw : w.Numbered := numbered setup directory hs
    -- What is taken in the end is what waited before and what arrived, which is the same for both.
    have hboth := (h₁.outcome_eq hw).trans (hsame ▸ (h₂.outcome_eq hw).symm)
    exact ⟨congrArg Prod.snd hboth, congrArg Prod.fst hboth⟩
  · intro hs₁ hs₂ h₁ h₂ hsame
    -- No process is started, so what was done to those that are there says all.
    have hboth := (arrivals_eq_yield h₁.takes).trans (hsame ▸ (arrivals_eq_yield h₂.takes).symm)
    exact ⟨congrArg Prod.snd hboth, congrArg Prod.fst hboth⟩

/-! ## Two schedules -/

def burst (count : Nat) : Happening :=
  .action (.write (List.replicate count [120, Framing.lineFeed]).flatten)

/-- The reader of records hands some of them in. -/
def readRecords (count : Nat) : List Happening :=
  (List.replicate count [.deed 1 (.on .records .read), .deed 1 (.on .records .send)]).flatten

/-- The verifier exits, and that is told. -/
def leave : List Happening :=
  .action (.finish (.exited 0)) :: readOn 1 3

/-- A user takes all events once the verifier has ended. -/
def burstRun : List Happening :=
  burst 30 :: readRecords 30 ++ leave ++ [.action .drain]

/-- A user takes some of them now and then. -/
def burstRunPolled : List Happening :=
  burst 30 :: readRecords 20 ++ [.action (.poll 15)] ++ readRecords 6 ++ [.action (.poll 29)] ++
    readRecords 4 ++ leave ++ [.action .complete]

theorem outcome_of_burstRun :
    let w := sample.after [verifySample]
    w.Serves burstRun ∧ w.Serves burstRunPolled ∧
      w.arrivals burstRun = w.arrivals burstRunPolled ∧
      w.calls burstRun = w.calls burstRunPolled ∧
      (w.after burstRun).controller = (w.after burstRunPolled).controller := by
  intro w
  have hdrained : w.Serves burstRun := ⟨by decide, by decide +kernel⟩
  have hpolled : w.Serves burstRunPolled := ⟨by decide, by decide +kernel⟩
  have hproduction : w.production burstRun = w.production burstRunPolled := by
    decide +kernel
  obtain ⟨-, -, -, -, -, hcalls, harrivals⟩ :=
    queue_keeps_order sampleSetup sampleDirectory [verifySample]
  have harrived := (harrivals _ _ hdrained hpolled hproduction).1
  exact ⟨hdrained, hpolled, harrived, hcalls _ _ hdrained hpolled harrived⟩

end Workbench
end VerifierSession
