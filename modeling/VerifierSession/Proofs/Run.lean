import Mathlib.Data.List.Induction
import VerifierSession.Proofs.History
import VerifierSession.Proofs.Process
import VerifierSession.Workbench

/-!
# Runs of a workbench

A run is a list of happenings at a bench: somebody acts, or something befalls one of the processes,
or is done by its readers, in any order.  What a run asks of the controller is a history.

* `Workbench.act_eq`: an action is what it asks of the controller;
* `Workbench.children_befall`: what a happening makes of the processes;
* `Workbench.taken_append_queue`: events are taken in the order in which they arrive;
* `Workbench.history_history`: the exchanges of a run from a new bench are a history.
-/

namespace VerifierSession

inductive Happening where
  | action (a : Action)
  | deed (session : Nat) (d : Deed)

def Happening.givesUp : Happening → Bool
  | .action (.verify ..) => true
  | .action .shutdown => true
  | _ => false

namespace Controller

/-- The events that are taken while a verification is running. -/
def heeded (c : Controller) (events : List Event) : List Event :=
  match events with
  | [] => []
  | e :: events => if c.activeSession.isSome then e :: (c.take e).1.heeded events else []

theorem nextSession_le_after (c : Controller) (rs : List Request) :
    c.nextSession ≤ (c.after rs).nextSession := by
  induction rs generalizing c with
  | nil => exact Nat.le_refl _
  | cons r rs ih => exact Nat.le_trans (c.answer r).nextSession_le (ih _)

theorem nextSession_le_of_mem_course {c : Controller} {rs : List Request} {m : Exchange}
    (hm : m ∈ c.course rs) : c.nextSession ≤ m.before.nextSession := by
  induction rs generalizing c with
  | nil => cases hm
  | cons r rs ih =>
      rcases List.mem_cons.1 hm with rfl | hrest
      · exact Nat.le_refl _
      · exact Nat.le_trans (c.answer r).nextSession_le (ih hrest)

theorem takeList_eq (c : Controller) (events : List Event) :
    c.takeList events =
      (c.after (events.map .take), (c.course (events.map .take)).flatMap Exchange.calls) := by
  induction events generalizing c with
  | nil => rfl
  | cons e events ih =>
      simp only [takeList, ih, List.map_cons, after, course, List.flatMap_cons]
      rfl

/-- Taking events while a verification is running is taking the first of them. -/
theorem takeWhileActive_eq (c : Controller) (events : List Event) :
    ∃ left, events = c.heeded events ++ left ∧
      c.takeWhileActive events =
        ((c.takeList (c.heeded events)).1, (c.takeList (c.heeded events)).2, left) := by
  induction events generalizing c with
  | nil => exact ⟨[], rfl, rfl⟩
  | cons e events ih =>
      cases hactive : c.activeSession with
      | none => exact ⟨e :: events, by simp [heeded, hactive], by
          simp [takeWhileActive, heeded, hactive, takeList]⟩
      | some n =>
          obtain ⟨left, hevents, htake⟩ := ih (c.take e).1
          refine ⟨left, ?_, ?_⟩
          · simp only [heeded, hactive, Option.isSome_some, if_true, List.cons_append]
            rw [← hevents]
          · simp only [takeWhileActive, heeded, hactive, Option.isSome_some, if_true, takeList,
              htake]

end Controller

namespace Workbench

/-! ## What happens -/

/-- A new bench. -/
def opened (setup : Setup) (directory : Directory) : Workbench :=
  { setup, directory }

/-- What an action asks of the controller, in order. -/
def requests (w : Workbench) (a : Action) : List Request :=
  match a with
  | .verify path flags => [.verify (w.setup.surroundings w.directory) path flags]
  | .poll budget => (w.queue.take budget).1.map .take
  | .drain => w.queue.events.map .take
  | .complete | .abandon => (w.controller.heeded w.queue.events).map .take
  | .shutdown => [.shutdown]
  | .welcome => [.welcome]
  | .check => [.check (w.setup.surroundings w.directory)]
  | .notify level message => [.notify level message]
  | _ => []

/-- What happens to a bench: the bench afterwards and the calls to the host. -/
def befall (w : Workbench) (h : Happening) : Workbench × List HostCall :=
  match h with
  | .action a => ((w.act a).1, (w.act a).2.1)
  | .deed n d => (w.deed n d, [])

def exchanges (w : Workbench) (h : Happening) : List Exchange :=
  match h with
  | .action a => w.controller.course (w.requests a)
  | .deed .. => []

def after (w : Workbench) (hs : List Happening) : Workbench :=
  match hs with
  | [] => w
  | h :: hs => (w.befall h).1.after hs

def history (w : Workbench) (hs : List Happening) : List Exchange :=
  match hs with
  | [] => []
  | h :: hs => w.exchanges h ++ (w.befall h).1.history hs

def calls (w : Workbench) (hs : List Happening) : List HostCall :=
  match hs with
  | [] => []
  | h :: hs => (w.befall h).2 ++ (w.befall h).1.calls hs

theorem after_run (w : Workbench) (hs hs' : List Happening) :
    w.after (hs ++ hs') = (w.after hs).after hs' := by
  induction hs generalizing w with
  | nil => rfl
  | cons h hs ih => exact ih _

theorem history_run (w : Workbench) (hs hs' : List Happening) :
    w.history (hs ++ hs') = w.history hs ++ (w.after hs).history hs' := by
  induction hs generalizing w with
  | nil => rfl
  | cons h hs ih => simp only [List.cons_append, history, after, ih, List.append_assoc]

theorem after_append (w : Workbench) (hs : List Happening) (h : Happening) :
    w.after (hs ++ [h]) = ((w.after hs).befall h).1 :=
  w.after_run hs [h]

theorem history_append (w : Workbench) (hs : List Happening) (h : Happening) :
    w.history (hs ++ [h]) = w.history hs ++ (w.after hs).exchanges h := by
  rw [history_run, history, history, List.append_nil]

/-! ## What is done to processes -/

/-- What befalls the process of a session in a happening. -/
def befalling (w : Workbench) (n : Nat) (h : Happening) : List Deed :=
  match h with
  | .action a =>
      match w.affected a with
      | some (m, ds) => if n = m then ds else []
      | none => []
  | .deed m d => if d.hands && w.queue.room == 0 then [] else if n = m then [d] else []

/-- The process that a happening starts, if it starts one. -/
def launched (w : Workbench) (h : Happening) : List Child :=
  match h with
  | .action (.verify path flags) =>
      match (w.controller.verify (w.setup.surroundings w.directory) path flags).result with
      | .ok (session, _) => [{ session }]
      | .error _ => []
  | _ => []

/-- The events that arrive at the queue in a happening; readers hand them in. -/
def arriving (w : Workbench) (h : Happening) : List Event :=
  w.children.flatMap fun c => (c.undergoAll (w.befalling c.session h)).2

theorem hands_of_affected {w : Workbench} {a : Action} {n : Nat} {ds : List Deed}
    (h : w.affected a = some (n, ds)) : ∀ d ∈ ds, d.hands = false := by
  cases a <;> simp only [affected, Option.map_eq_some_iff, Prod.mk.injEq, reduceCtorEq] at h <;>
    · obtain ⟨_, -, -, rfl⟩ := h
      simp [Deed.hands]

theorem undergoAll_of_not_hands {c : Child} {ds : List Deed} (h : ∀ d ∈ ds, d.hands = false) :
    (c.undergoAll ds).2 = [] := by
  induction ds generalizing c with
  | nil => rfl
  | cons d ds ih =>
      have hfirst : (c.undergo d).2 = [] := by
        have hquiet := h d List.mem_cons_self
        cases d with
        | on o s => cases s <;> first | rfl | cases hquiet
        | finish termination => rfl
        | tell => cases hquiet
      have hrest := ih (c := (c.undergo d).1) fun d' hd' => h d' (List.mem_cons_of_mem _ hd')
      simp only [Child.undergoAll, hfirst, hrest, List.append_nil]

/-- Where nothing can be handed in, the queue stays as it is. -/
theorem stir_of_not_hands (w : Workbench) (n : Nat) {ds : List Deed}
    (h : ∀ d ∈ ds, d.hands = false) :
    w.stir n ds = { w with children := (w.processes n ds).1 } := by
  have hquiet : (w.processes n ds).2 = [] := by
    refine List.flatMap_eq_nil_iff.2 ?_
    intro c _
    split
    · exact undergoAll_of_not_hands h
    · rfl
  simp only [stir, hquiet, Queue.push_nil]

theorem arriving_action (w : Workbench) (a : Action) : w.arriving (.action a) = [] := by
  refine List.flatMap_eq_nil_iff.2 ?_
  intro c _
  refine undergoAll_of_not_hands ?_
  simp only [befalling]
  split
  · next m ds haffected =>
      split
      · exact hands_of_affected haffected
      · simp
  · simp

theorem touch_eq (w : Workbench) (a : Action) :
    w.touch a = { w with
      children := w.children.map fun c =>
        (c.undergoAll (w.befalling c.session (.action a))).1 } := by
  simp only [touch, befalling]
  cases haffected : w.affected a with
  | none => simp [Child.undergoAll]
  | some found =>
      obtain ⟨n, ds⟩ := found
      exact w.stir_of_not_hands n (hands_of_affected haffected)

theorem deed_eq (w : Workbench) (n : Nat) (d : Deed) :
    w.deed n d = { w with
      children := w.children.map fun c => (c.undergoAll (w.befalling c.session (.deed n d))).1
      queue := w.queue.push (w.arriving (.deed n d)) } := by
  simp only [deed, arriving, befalling]
  split
  · have hnone : w.children.flatMap (fun _ => ([] : List Event)) = [] := by simp
    simp [Child.undergoAll, hnone]
  · rfl

theorem children_act (w : Workbench) (a : Action) :
    (w.act a).1.children = w.launched (.action a) ++ (w.touch a).children := by
  cases a with
  | verify path flags =>
      simp only [act, verify, launched]
      split
      · next h => rw [h]; rfl
      · next h => rw [h]; rfl
  | _ => rfl

theorem children_befall (w : Workbench) (h : Happening) :
    (w.befall h).1.children = w.launched h ++
      w.children.map fun c => (c.undergoAll (w.befalling c.session h)).1 := by
  cases h with
  | action a =>
      change (w.act a).1.children = _
      rw [children_act, touch_eq]
  | deed n d =>
      change (w.deed n d).children = _
      rw [deed_eq]
      rfl

theorem session_of_mem_arriving {w : Workbench} {h : Happening} {e : Event}
    (he : e ∈ w.arriving h) : ∃ child ∈ w.children, e.session = child.session := by
  obtain ⟨child, hchild, hheard⟩ := List.mem_flatMap.1 he
  exact ⟨child, hchild, Child.session_of_mem_undergoAll hheard⟩

/-! ## An action is what it asks of the controller -/

theorem queue_touch (w : Workbench) (a : Action) : (w.touch a).queue = w.queue := by
  rw [touch_eq]

theorem controller_touch (w : Workbench) (a : Action) : (w.touch a).controller = w.controller := by
  rw [touch_eq]

theorem complete_eq (w : Workbench) :
    w.complete.1.controller =
        w.controller.after ((w.controller.heeded w.queue.events).map .take) ∧
      w.complete.2 =
        (w.controller.course ((w.controller.heeded w.queue.events).map .take)).flatMap
          Exchange.calls ∧
      w.controller.heeded w.queue.events ++ w.complete.1.queue.events = w.queue.events := by
  obtain ⟨left, hevents, htake⟩ := w.controller.takeWhileActive_eq w.queue.events
  have hlength : w.queue.events.length = (w.controller.heeded w.queue.events).length +
      left.length := by
    rw [← List.length_append, ← hevents]
  refine ⟨?_, ?_, ?_⟩
  · simp only [complete, htake, Controller.takeList_eq]
  · simp only [complete, htake, Controller.takeList_eq]
  · have hleft : w.complete.1.queue.events = left := by
      have hkept : w.complete.1.queue.events = w.queue.events.drop
          (w.queue.events.length - (w.controller.takeWhileActive w.queue.events).2.2.length) := rfl
      rw [hkept, htake, hlength, Nat.add_sub_cancel]
      exact (congrArg (List.drop _) hevents).trans List.drop_left
    rw [hleft]
    exact hevents.symm

theorem act_eq (w : Workbench) (a : Action) :
    (w.act a).1.controller = w.controller.after (w.requests a) ∧
      (w.act a).2.1 = (w.controller.course (w.requests a)).flatMap Exchange.calls := by
  cases a with
  | verify path flags =>
      simp only [act, verify, requests, Controller.after, Controller.course, Controller.respond,
        Exchange.calls, List.flatMap_cons, List.flatMap_nil, List.append_nil]
      split
      · exact ⟨rfl, rfl⟩
      · exact ⟨rfl, rfl⟩
  | abandon =>
      obtain ⟨hcontroller, hcalls, -⟩ := (w.touch .abandon).complete_eq
      rw [queue_touch, controller_touch] at hcontroller hcalls
      exact ⟨hcontroller, hcalls⟩
  | poll budget => simp only [act, poll, requests, Controller.takeList_eq, and_self]
  | drain => simp only [act, drain, requests, Controller.takeList_eq, and_self]
  | complete => exact ⟨w.complete_eq.1, w.complete_eq.2.1⟩
  | shutdown =>
      simp only [act, shutdown, requests, Controller.after, Controller.course,
        Controller.respond, Exchange.calls, List.flatMap_cons, List.flatMap_nil, List.append_nil,
        and_self]
  | welcome =>
      simp only [act, requests, Controller.after, Controller.course, Controller.respond,
        Exchange.calls, List.flatMap_cons, List.flatMap_nil, List.append_nil, and_self]
  | check =>
      simp only [act, requests, Controller.after, Controller.course, Controller.respond,
        Exchange.calls, List.flatMap_cons, List.flatMap_nil, List.append_nil, and_self]
  | notify level message =>
      simp only [act, requests, Controller.after, Controller.course, Controller.respond,
        Exchange.calls, List.flatMap_cons, List.flatMap_nil, List.append_nil, and_self]
  | store path bytes => exact ⟨rfl, rfl⟩
  | delete path => exact ⟨rfl, rfl⟩
  | inspect => exact ⟨rfl, rfl⟩
  | _ => exact ⟨w.controller_touch _, rfl⟩

theorem controller_befall (w : Workbench) (h : Happening) :
    (w.befall h).1.controller =
      match h with
      | .action a => w.controller.after (w.requests a)
      | .deed .. => w.controller := by
  cases h with
  | action a => exact (w.act_eq a).1
  | deed n d =>
      change (w.deed n d).controller = _
      rw [deed_eq]

theorem calls_befall (w : Workbench) (h : Happening) :
    (w.befall h).2 = (w.exchanges h).flatMap Exchange.calls := by
  cases h with
  | action a => exact (w.act_eq a).2
  | deed n d => rfl

theorem calls_eq (w : Workbench) (hs : List Happening) :
    w.calls hs = (w.history hs).flatMap Exchange.calls := by
  induction hs generalizing w with
  | nil => rfl
  | cons h hs ih => rw [calls, history, List.flatMap_append, calls_befall, ih]

def arrivals (w : Workbench) (hs : List Happening) : List Event :=
  match hs with
  | [] => []
  | h :: hs => w.arriving h ++ (w.befall h).1.arrivals hs

theorem arrivals_run (w : Workbench) (hs hs' : List Happening) :
    w.arrivals (hs ++ hs') = w.arrivals hs ++ (w.after hs).arrivals hs' := by
  induction hs generalizing w with
  | nil => rfl
  | cons h hs ih => simp only [List.cons_append, arrivals, after, ih, List.append_assoc]

theorem arrivals_append (w : Workbench) (hs : List Happening) (h : Happening) :
    w.arrivals (hs ++ [h]) = w.arrivals hs ++ (w.after hs).arriving h := by
  rw [arrivals_run, arrivals, arrivals, List.append_nil]

end Workbench

def Exchange.event? (m : Exchange) : Option Event :=
  match m.request with
  | .take e => some e
  | _ => none

/-- The events that are taken in exchanges, in order. -/
def Exchange.taken (ms : List Exchange) : List Event :=
  ms.filterMap Exchange.event?

theorem Exchange.event?_eq_some {m : Exchange} {e : Event} :
    m.event? = some e ↔ m.request = .take e := by
  unfold Exchange.event?
  cases m.request <;> simp

theorem Exchange.mem_taken {ms : List Exchange} {e : Event} :
    e ∈ Exchange.taken ms ↔ ∃ m ∈ ms, m.request = .take e := by
  simp [Exchange.taken, List.mem_filterMap, Exchange.event?_eq_some]

theorem Exchange.taken_append_cons {before later : List Exchange} {m : Exchange} {e : Event}
    (h : m.request = .take e) :
    Exchange.taken (before ++ m :: later) = Exchange.taken before ++ e :: Exchange.taken later := by
  simp [Exchange.taken, Exchange.event?, h]

namespace Workbench

@[simp] theorem taken_course_take (c : Controller) (es : List Event) :
    Exchange.taken (c.course (es.map .take)) = es := by
  induction es generalizing c with
  | nil => rfl
  | cons e es ih =>
      change e :: Exchange.taken ((c.take e).1.course (es.map .take)) = e :: es
      rw [ih]

/-! ## The numbers of processes and events -/

/--
The processes and the waiting events are of sessions that were begun, and no two processes of the
same.
-/
structure Numbered (w : Workbench) : Prop where
  children : ∀ child ∈ w.children, child.session < w.controller.nextSession
  distinct : (w.children.map Child.session).Nodup
  queue : ∀ e ∈ w.queue.events, e.session < w.controller.nextSession

/-- Where no two processes are of the same session, what is heard of one of them is its own. -/
theorem filter_flatMap {children : List Child} (hdistinct : (children.map Child.session).Nodup)
    {heard : Child → List Event} (hheard : ∀ c, ∀ e ∈ heard c, e.session = c.session)
    {child : Child}
    (hmem : child ∈ children) :
    (children.flatMap heard).filter (fun e => e.session == child.session) = heard child := by
  have hown : (heard child).filter (fun e => e.session == child.session) = heard child := by
    refine List.filter_eq_self.2 ?_
    intro e he
    simpa using hheard child e he
  have hother : ∀ c, c.session ≠ child.session →
      (heard c).filter (fun e => e.session == child.session) = [] := by
    intro c hne
    apply Event.filter_session_eq_nil
    intro e he hsession
    exact hne ((hheard c e he).symm.trans hsession)
  induction children with
  | nil => cases hmem
  | cons first rest ih =>
      rw [List.map_cons, List.nodup_cons] at hdistinct
      rw [List.flatMap_cons, List.filter_append]
      rcases List.mem_cons.1 hmem with rfl | hrest
      · -- It is in front, and nobody behind it is of its session.
        have hnone : (rest.flatMap heard).filter (fun e => e.session == child.session) = [] := by
          rw [List.filter_flatMap]
          refine List.flatMap_eq_nil_iff.2 ?_
          intro c hc
          exact hother c fun heq => hdistinct.1 (heq ▸ List.mem_map_of_mem hc)
        rw [hown, hnone, List.append_nil]
      · have hne : first.session ≠ child.session := by
          intro heq
          exact hdistinct.1 (heq ▸ List.mem_map_of_mem hrest)
        rw [hother first hne, List.nil_append]
        exact ih hdistinct.2 hrest

namespace Numbered

variable {w : Workbench}

theorem arriving_filter (hw : w.Numbered) (h : Happening) {child : Child}
    (hmem : child ∈ w.children) :
    (w.arriving h).filter (fun e => e.session == child.session) =
      (child.undergoAll (w.befalling child.session h)).2 :=
  filter_flatMap hw.distinct (fun _ _ he => Child.session_of_mem_undergoAll he) hmem

/-- Somebody's deed is done to a process of that session, if it can be done. -/
theorem befalling_deed {n m : Nat} {d : Deed} {child : Child} {e : Event}
    (he : e ∈ (child.undergoAll (w.befalling m (.deed n d))).2) :
    m = n ∧ w.befalling m (.deed n d) = [d] ∧ e ∈ (child.undergo d).2 ∧ 0 < w.queue.room := by
  simp only [befalling] at he ⊢
  split at he
  · cases he
  · next hblocked =>
      split at he
      · next heq =>
          have hmem : e ∈ (child.undergo d).2 := by simpa [Child.undergoAll] using he
          have hhands : d.hands = true := by
            by_contra hquiet
            have hnone : (child.undergoAll [d]).2 = [] :=
              undergoAll_of_not_hands (by simpa using hquiet)
            rw [hnone] at he
            cases he
          have hroom : w.queue.room ≠ 0 := by simpa [hhands] using hblocked
          exact ⟨heq, by simp [hblocked, heq], hmem, Nat.pos_of_ne_zero hroom⟩
      · cases he

theorem length_arriving_le (hw : w.Numbered) (h : Happening) :
    (w.arriving h).length ≤ w.queue.room := by
  cases h with
  | action a =>
      rw [arriving_action]
      exact Nat.zero_le _
  | deed n d =>
      cases hevents : w.arriving (.deed n d) with
      | nil => exact Nat.zero_le _
      | cons e es =>
          have harriving : e ∈ w.arriving (.deed n d) := by simp [hevents]
          obtain ⟨child, hchild, hheard⟩ := List.mem_flatMap.1 harriving
          obtain ⟨hsession, hdeed, -, hroom⟩ := befalling_deed hheard
          -- All that arrives is heard of the one process of that session.
          have hall : (w.arriving (.deed n d)).filter (fun e => e.session == child.session) =
              w.arriving (.deed n d) := by
            refine List.filter_eq_self.2 ?_
            intro e' he'
            obtain ⟨child', -, hheard'⟩ := List.mem_flatMap.1 he'
            have hsame := (befalling_deed hheard').1
            simp [Child.session_of_mem_undergoAll hheard', hsame, hsession]
          rw [hw.arriving_filter _ hchild, hdeed, hevents] at hall
          rw [← hall]
          refine Nat.le_trans ?_ hroom
          simpa [Child.undergoAll] using child.length_undergo_le d

end Numbered

/-- What was taken, and what waits after a happening, waited before or arrives in it. -/
theorem taken_append_queue_befall {w : Workbench} (hw : w.Numbered) (h : Happening) :
    Exchange.taken (w.exchanges h) ++ (w.befall h).1.queue.events =
      w.queue.events ++ w.arriving h := by
  cases h with
  | deed n d =>
      change [] ++ (w.deed n d).queue.events = _
      rw [deed_eq, List.nil_append]
      exact Queue.events_push (hw.length_arriving_le (.deed n d))
  | action a =>
      have htouch : (w.touch a).queue = w.queue := w.queue_touch a
      rw [arriving_action, List.append_nil]
      cases a with
      | verify path flags =>
          rw [← htouch]
          simp only [befall, act, verify]
          split <;> rfl
      | abandon =>
          obtain ⟨-, -, hkept⟩ := (w.touch .abandon).complete_eq
          rw [htouch, controller_touch] at hkept
          simp only [exchanges, requests, taken_course_take]
          exact hkept
      | poll budget =>
          simp only [exchanges, requests, taken_course_take]
          exact List.take_append_drop budget w.queue.events
      | drain =>
          simp only [exchanges, requests, taken_course_take]
          exact List.append_nil _
      | complete =>
          simp only [exchanges, requests, taken_course_take]
          exact w.complete_eq.2.2
      | store path bytes => rfl
      | delete path => rfl
      | inspect => rfl
      | welcome => rfl
      | check => rfl
      | notify level message => rfl
      | _ => exact congrArg Queue.events htouch

/-! ## The exchanges of a run are a history -/

theorem mem_arriving {w : Workbench} (hw : w.Numbered) {h : Happening} {e : Event}
    (he : e ∈ w.arriving h) : e.session < w.controller.nextSession := by
  obtain ⟨child, hmem, hsession⟩ := session_of_mem_arriving he
  rw [hsession]
  exact hw.children child hmem

theorem inTime_exchanges {w : Workbench} (hw : w.Numbered) (h : Happening) :
    ∀ m ∈ w.exchanges h, m.InTime := by
  -- Whatever is taken was waiting, or arrives now.
  have htaken : ∀ e ∈ Exchange.taken (w.exchanges h), e.session < w.controller.nextSession := by
    intro e he
    have hmem : e ∈ w.queue.events ++ w.arriving h := by
      rw [← taken_append_queue_befall hw h]
      exact List.mem_append_left _ he
    rcases List.mem_append.1 hmem with hwaiting | harriving
    · exact hw.queue e hwaiting
    · exact mem_arriving hw harriving
  intro m hm e he
  have hle : w.controller.nextSession ≤ m.before.nextSession := by
    cases h with
    | action a => exact Controller.nextSession_le_of_mem_course hm
    | deed n d => cases hm
  exact Nat.lt_of_lt_of_le (htaken e (Exchange.mem_taken.2 ⟨m, hm, he⟩)) hle

theorem nextSession_le_befall (w : Workbench) (h : Happening) :
    w.controller.nextSession ≤ (w.befall h).1.controller.nextSession := by
  rw [controller_befall]
  cases h with
  | action a => exact Controller.nextSession_le_after _ _
  | deed n d => exact Nat.le_refl _

theorem session_of_mem_launched {w : Workbench} {h : Happening} {child : Child}
    (hchild : child ∈ w.launched h) :
    child = { session := w.controller.nextSession } ∧
      (w.befall h).1.controller.nextSession = w.controller.nextSession + 1 ∧
      (w.befall h).1.controller.activeSession = some w.controller.nextSession := by
  unfold launched at hchild
  split at hchild
  · next path flags =>
      rw [controller_befall]
      simp only [requests, Controller.after, Controller.respond]
      obtain ⟨hnext, hcases⟩ :=
        w.controller.verify_cases (w.setup.surroundings w.directory) path flags
      rcases hcases with ⟨failure, hresult, -⟩ | ⟨document, command, hresult, hphase⟩
      · simp [hresult] at hchild
      · simp only [hresult, List.mem_singleton] at hchild
        exact ⟨hchild, hnext, by simp [Controller.activeSession, hphase]⟩
  · cases hchild

theorem sessions_befall (w : Workbench) (h : Happening) :
    (w.befall h).1.children.map Child.session =
      (w.launched h).map Child.session ++ w.children.map Child.session := by
  rw [children_befall, List.map_append, List.map_map]
  congr 1
  exact List.map_congr_left fun child _ => child.undergoAll_session _

theorem Numbered.befall {w : Workbench} (hw : w.Numbered) (h : Happening) :
    (w.befall h).1.Numbered where
  children := by
    intro child hchild
    have hmem := List.mem_map_of_mem (f := Child.session) hchild
    rw [sessions_befall] at hmem
    rcases List.mem_append.1 hmem with hnew | hold
    · obtain ⟨child', hlaunched, hsession⟩ := List.mem_map.1 hnew
      obtain ⟨rfl, hnext, -⟩ := session_of_mem_launched hlaunched
      rw [← hsession, hnext]
      exact Nat.lt_succ_self _
    · obtain ⟨child', hmem, hsession⟩ := List.mem_map.1 hold
      rw [← hsession]
      exact Nat.lt_of_lt_of_le (hw.children child' hmem) (w.nextSession_le_befall h)
  distinct := by
    rw [sessions_befall]
    refine List.nodup_append.2 ⟨?_, hw.distinct, ?_⟩
    · unfold launched
      split
      · split <;> simp
      · simp
    · intro n hn n' hn' heq
      obtain ⟨child, hnew, rfl⟩ := List.mem_map.1 hn
      obtain ⟨child', hold, rfl⟩ := List.mem_map.1 hn'
      rw [(session_of_mem_launched hnew).1] at heq
      exact Nat.ne_of_lt (hw.children child' hold) heq.symm
  queue := by
    intro e he
    have hmem : e ∈ w.queue.events ++ w.arriving h := by
      rw [← taken_append_queue_befall hw h]
      exact List.mem_append_right _ he
    refine Nat.lt_of_lt_of_le ?_ (w.nextSession_le_befall h)
    rcases List.mem_append.1 hmem with hwaiting | harriving
    · exact hw.queue e hwaiting
    · exact mem_arriving hw harriving

theorem Numbered.after {w : Workbench} (hw : w.Numbered) (hs : List Happening) :
    (w.after hs).Numbered := by
  induction hs generalizing w with
  | nil => exact hw
  | cons h hs ih => exact ih (hw.befall h)

/-- What was taken and what still waits is what arrived, in order. -/
theorem taken_append_queue {w : Workbench} (hw : w.Numbered) (hs : List Happening) :
    Exchange.taken (w.history hs) ++ (w.after hs).queue.events =
      w.queue.events ++ w.arrivals hs := by
  induction hs generalizing w with
  | nil => simp [history, after, arrivals, Exchange.taken]
  | cons h hs ih =>
      calc
        Exchange.taken (w.history (h :: hs)) ++ (w.after (h :: hs)).queue.events
            = Exchange.taken (w.exchanges h) ++ (Exchange.taken ((w.befall h).1.history hs) ++
                ((w.befall h).1.after hs).queue.events) := by
                simp [history, after, Exchange.taken]
        _ = Exchange.taken (w.exchanges h) ++ ((w.befall h).1.queue.events ++
              (w.befall h).1.arrivals hs) := by rw [ih (hw.befall h)]
        _ = w.queue.events ++ w.arrivals (h :: hs) := by
              rw [← List.append_assoc, taken_append_queue_befall hw h, List.append_assoc]
              rfl

variable (setup : Setup) (directory : Directory)

theorem numbered_opened : (opened setup directory).Numbered :=
  ⟨by simp [opened], by simp [opened], by simp [opened]⟩

theorem numbered (hs : List Happening) : ((opened setup directory).after hs).Numbered :=
  (numbered_opened setup directory).after hs

/-- In a run from a new bench, what was taken and what still waits is all that arrived. -/
theorem taken_append_queue_opened (hs : List Happening) :
    Exchange.taken ((opened setup directory).history hs) ++
        ((opened setup directory).after hs).queue.events =
      (opened setup directory).arrivals hs :=
  taken_append_queue (numbered_opened setup directory) hs

/-- The exchanges of a run from a new bench are a history. -/
theorem history_history (hs : List Happening) :
    History ((opened setup directory).history hs)
      ((opened setup directory).after hs).controller := by
  induction hs using List.reverseRecOn with
  | nil => exact .start
  | append_singleton hs h ih =>
      have htime := inTime_exchanges (numbered setup directory hs) h
      rw [history_append, after_append, controller_befall]
      cases h with
      | action a => exact ih.course htime
      | deed n d => simpa [exchanges] using ih

/-! ## A small bench -/

/-- A setup in which every program is found. -/
def sampleSetup : Setup where
  lookup := .table [("java", ⟨"/bin/java"⟩), ("z3", ⟨"/bin/z3"⟩), ("boogie", ⟨"/bin/boogie"⟩)]
  bundle := ⟨"bundle"⟩

/-- A directory with an empty document, the verifier, and the program that runs it. -/
def sampleDirectory : Directory where
  entries :=
    [(["a.hhl"], .file []), (["bundle"], .directory), (["bundle", "hhl.jar"], .file []),
      (["/", "bin"], .directory), (["/", "bin", "java"], .program)]

/-- A bench on which the document can be verified. -/
def sample : Workbench :=
  opened sampleSetup sampleDirectory

def verifySample : Happening :=
  .action (.verify ⟨"a.hhl"⟩ .configured)

/-- The readers of a process go on for a while, and so does who waits for its end. -/
def readOn (session rounds : Nat) : List Happening :=
  (List.replicate rounds (Deed.own.map (.deed session))).flatten

end Workbench
end VerifierSession
