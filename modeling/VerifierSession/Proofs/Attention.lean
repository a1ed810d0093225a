import VerifierSession.Proofs.Accounts
import VerifierSession.Proofs.Verdict

/-!
# What a running session attends to

A session attends to the events of its own process, in the order in which they are heard of, and to
nothing else that is heard.  When it does is left to those who take events from the queue; what it
attends to is not.

* `Workbench.told`: what arrives of a session in a run;
* `Controller.taken_attended`: of the events that are taken, a running session attends to its own;
* `Workbench.JustStarted.attended_history`: what a new session attends to is the beginning of what
  its process is told of, and all of that once nothing waits.
-/

namespace VerifierSession

/-! ## What is attended to -/

/-- Whether an event of the session that runs is taken. -/
def Exchange.attends (m : Exchange) : Bool :=
  match m.request with
  | .take e => m.before.activeSession == some e.session
  | _ => false

/-- The exchanges in which an event of the session that runs is taken. -/
def Exchange.attended (ms : List Exchange) : List Exchange :=
  ms.filter Exchange.attends

namespace Exchange

theorem attends_take (c : Controller) (e : Event) :
    (Exchange.mk c (.take e)).attends = true ↔ c.activeSession = some e.session := by
  simp [attends]

/-- What is neither attended to nor gives up a session is stale, or it is aside. -/
theorem isStale_or_isAside {m : Exchange} (hgives : m.request.givesUp = false)
    (h : m.attends = false) : m.isStale = true ∨ m.request.isAside = true := by
  obtain ⟨c, r⟩ := m
  cases r with
  | verify s path flags => cases hgives
  | take e =>
      left
      have hinactive : c.activeSession ≠ some e.session := by
        intro hactive
        rw [(attends_take c e).2 hactive] at h
        cases h
      simpa [isStale] using hinactive
  | shutdown => cases hgives
  | welcome => exact .inr rfl
  | check s => exact .inr rfl
  | notify level message => exact .inr rfl

/-- It leaves the controller as it is, and makes no calls but those that are asked for. -/
theorem unchanged_of_not_attends {m : Exchange} (hgives : m.request.givesUp = false)
    (h : m.attends = false) :
    m.after = m.before ∧ (m.request.isAside = false → m.calls = []) := by
  rcases isStale_or_isAside hgives h with hstale | haside
  · obtain ⟨hafter, hcalls⟩ := eq_of_isStale hstale
    exact ⟨hafter, fun _ => hcalls⟩
  · refine ⟨?_, ?_⟩
    · obtain ⟨c, r⟩ := m
      cases r with
      | verify s path flags => cases haside
      | take e => cases haside
      | shutdown => cases haside
      | _ => rfl
    · intro hnot
      rw [haside] at hnot
      cases hnot

theorem request_of_attends {m : Exchange} (h : m.attends = true) :
    ∃ e, m.request = .take e ∧ m.before.activeSession = some e.session := by
  obtain ⟨c, r⟩ := m
  cases r with
  | take e => exact ⟨e, rfl, (attends_take c e).1 h⟩
  | _ => cases h

theorem taken_cons (m : Exchange) (ms : List Exchange) :
    taken (m :: ms) = m.event?.toList ++ taken ms := by
  cases h : m.event? <;> simp [taken, h]

theorem attended_cons (m : Exchange) (ms : List Exchange) :
    attended (m :: ms) = (if m.attends then [m] else []) ++ attended ms := by
  cases h : m.attends <;> simp [attended, h]

/-- Where events are taken in all exchanges, they say what is asked for. -/
theorem request_eq_taken {ms : List Exchange} (h : ∀ m ∈ ms, ∃ e, m.request = .take e) :
    ms.map request = (taken ms).map .take := by
  induction ms with
  | nil => rfl
  | cons m ms ih =>
      obtain ⟨e, hrequest⟩ := h m List.mem_cons_self
      have hevent : m.event? = some e := event?_eq_some.2 hrequest
      have hlater := ih fun m' hm' => h m' (List.mem_cons_of_mem _ hm')
      rw [taken_cons, hevent, List.map_cons, hrequest, hlater]
      rfl

theorem request_attended (ms : List Exchange) :
    (attended ms).map request = (taken (attended ms)).map .take := by
  refine request_eq_taken ?_
  intro m hm
  obtain ⟨e, hrequest, -⟩ := request_of_attends (List.mem_filter.1 hm).2
  exact ⟨e, hrequest⟩

end Exchange

namespace Controller

theorem attended_of_inactive {c : Controller} (hn : c.activeSession = none) {rs : List Request}
    (hgives : ∀ r ∈ rs, r.givesUp = false) :
    Exchange.attended (c.course rs) = [] ∧ c.after rs = c := by
  -- The controller stays the same all along, so the induction is on the requests alone.
  induction rs with
  | nil => exact ⟨rfl, rfl⟩
  | cons r rs ih =>
      obtain ⟨hattended, hafter⟩ := ih fun r' hr' => hgives r' (List.mem_cons_of_mem _ hr')
      have hnot : (Exchange.mk c r).attends = false := by
        cases r <;> simp [Exchange.attends, hn]
      have hc : (c.respond r).1 = c :=
        (Exchange.unchanged_of_not_attends (hgives r List.mem_cons_self) hnot).1
      refine ⟨?_, ?_⟩
      · rw [course, Exchange.attended, List.filter_cons, hnot, hc]
        exact hattended
      · rw [after, hc, hafter]

theorem activeSession_take {c : Controller} {n : Nat} (hn : c.activeSession = some n) {e : Event}
    (he : e.output.isEnd = false) : (c.take e).1.activeSession = some n := by
  rcases (answer_take c e).activeSession_kept hn rfl with hruns | ⟨termination, hrequest⟩
  · exact hruns
  · cases hrequest
    cases he

theorem activeSession_take_end {c : Controller} {n : Nat} (hn : c.activeSession = some n)
    {e : Event} (hsession : e.session = n) (he : e.output.isEnd = true) :
    (c.take e).1.activeSession = none := by
  obtain ⟨v, document, hp, rfl⟩ := exists_of_activeSession hn
  obtain ⟨session, output⟩ := e
  cases hsession
  cases output with
  | ended termination =>
      rw [take_ended hp]
      simp [activeSession]
  | record line => cases he
  | complaint chunk => cases he

/--
A running session attends to its own events among those that are taken, if nothing of it is taken
after its end; then it runs unless its end is among them.
-/
theorem taken_attended {c : Controller} {n : Nat} (hn : c.activeSession = some n)
    {rs : List Request} (hgives : ∀ r ∈ rs, r.givesUp = false)
    (hend : ((Exchange.taken (c.course rs)).filter (fun e => e.session == n)).Pairwise
      fun e _ => e.output.isEnd = false) :
    Exchange.taken (Exchange.attended (c.course rs)) =
        (Exchange.taken (c.course rs)).filter (fun e => e.session == n) ∧
      ((c.after rs).activeSession = some n ∨ (c.after rs).activeSession = none ∧
        ∃ e ∈ (Exchange.taken (c.course rs)).filter (fun e => e.session == n),
          e.output.isEnd = true) := by
  induction rs generalizing c with
  | nil => exact ⟨rfl, .inl hn⟩
  | cons r rs ih =>
      have hlater : ∀ r' ∈ rs, r'.givesUp = false :=
        fun r' hr' => hgives r' (List.mem_cons_of_mem _ hr')
      rw [course, Exchange.taken_cons, List.filter_append] at hend ⊢
      rw [Exchange.attended_cons, after]
      cases hattends : (Exchange.mk c r).attends with
      | false =>
          -- The first request changes nothing, and what it takes is of another session.
          have hc : (c.respond r).1 = c :=
            (Exchange.unchanged_of_not_attends (hgives r List.mem_cons_self) hattends).1
          have hother : (Exchange.mk c r).event?.toList.filter (fun e => e.session == n) = [] := by
            cases r with
            | take e =>
                have hne : e.session ≠ n := by
                  rintro rfl
                  rw [(Exchange.attends_take c e).2 hn] at hattends
                  cases hattends
                simp [Exchange.event?, hne]
            | _ => rfl
          rw [hother, List.nil_append, hc] at hend ⊢
          exact ih hn hlater hend
      | true =>
          -- It is an event of the session, and it decides whether the session runs on.
          obtain ⟨e, hrequest, hactive⟩ := Exchange.request_of_attends hattends
          cases hrequest
          have hsession : e.session = n := by
            rw [hn] at hactive
            exact (Option.some.inj hactive).symm
          have hown : (Exchange.mk c (.take e)).event?.toList.filter (fun e => e.session == n) =
              [e] := by
            simp [Exchange.event?, hsession]
          rw [hown, List.singleton_append, List.pairwise_cons] at hend
          rw [hown, if_pos rfl, List.singleton_append, Exchange.taken_cons]
          change [e] ++ _ = _ ∧ _
          cases hlast : e.output.isEnd with
          | false =>
              obtain ⟨htaken, hafter⟩ := ih (activeSession_take hn hlast) hlater hend.2
              refine ⟨congrArg ([e] ++ ·) htaken, ?_⟩
              rcases hafter with hruns | ⟨hover, e', he', hisEnd⟩
              · exact .inl hruns
              · exact .inr ⟨hover, e', List.mem_append_right _ he', hisEnd⟩
          | true =>
              -- Nothing of the session follows its end, and nothing else is attended to.
              have hover : (c.respond (.take e)).1.activeSession = none :=
                activeSession_take_end hn hsession hlast
              obtain ⟨hattended, hafter⟩ := attended_of_inactive hover hlater
              have hnone : (Exchange.taken ((c.respond (.take e)).1.course rs)).filter
                  (fun e => e.session == n) = [] := Event.eq_nil_of_isEnd hend.1 hlast
              rw [hnone, hattended, hafter]
              exact ⟨rfl, .inr ⟨hover, e, List.mem_singleton_self e, hlast⟩⟩

/-- What is heard of a process except for its complaints. -/
def outline (heard : List ProcessOutput) : List ProcessOutput :=
  heard.filter fun output => output.outlet? != some .complaints

theorem Answer.eq_of_complaint {c c' : Controller} {n : Nat} {chunk : String}
    {calls : List HostCall} (h : c.Answer (.take ⟨n, .complaint chunk⟩) c' calls) : c' = c := by
  cases h with
  | stale _ => rfl
  | complaint _ => rfl
  | aside haside _ => cases haside

theorem after_outline (c : Controller) (n : Nat) (heard : List ProcessOutput) :
    c.after (heard.map fun output => .take ⟨n, output⟩) =
      c.after ((outline heard).map fun output => .take ⟨n, output⟩) := by
  induction heard generalizing c with
  | nil => rfl
  | cons output heard ih =>
      cases output with
      | complaint chunk =>
          have hsame : (c.take ⟨n, .complaint chunk⟩).1 = c := (answer_take c _).eq_of_complaint
          exact (congrArg (fun c : Controller => c.after _) hsame).trans (ih c)
      | record line => exact ih _
      | ended termination => exact ih _

end Controller

namespace Workbench

/-! ## Runs in which a session is not given up -/

theorem exchanges_eq_course (w : Workbench) (h : Happening) :
    w.exchanges h = w.controller.course ((w.exchanges h).map Exchange.request) ∧
      (w.befall h).1.controller = w.controller.after ((w.exchanges h).map Exchange.request) := by
  rw [controller_befall]
  cases h with
  | deed n d => exact ⟨rfl, rfl⟩
  | action a =>
      simp only [exchanges, Controller.request_course, and_self]

theorem request_of_not_givesUp {w : Workbench} {h : Happening} (hgives : h.givesUp = false) :
    ∀ r ∈ (w.exchanges h).map Exchange.request, r.givesUp = false := by
  intro r hr
  cases h with
  | deed n d => cases hr
  | action a =>
      simp only [exchanges, Controller.request_course] at hr
      by_contra hne
      rcases givesUp_of_mem_requests hr (by simpa using hne) with ⟨path, flags, rfl⟩ | rfl
      · cases hgives
      · cases hgives

theorem history_eq_course (w : Workbench) (hs : List Happening) :
    w.history hs = w.controller.course ((w.history hs).map Exchange.request) ∧
      (w.after hs).controller = w.controller.after ((w.history hs).map Exchange.request) := by
  induction hs generalizing w with
  | nil => exact ⟨rfl, rfl⟩
  | cons h hs ih =>
      obtain ⟨hfirst, hbetween⟩ := w.exchanges_eq_course h
      obtain ⟨hlater, hafter⟩ := ih (w.befall h).1
      rw [history, List.map_append, Controller.course_append, Controller.after_append,
        ← hfirst, ← hbetween, ← hlater]
      exact ⟨rfl, hafter⟩

/-! ## From the start of a process on -/

def told (w : Workbench) (n : Nat) (hs : List Happening) : List ProcessOutput :=
  ((w.arrivals hs).filter fun e => e.session == n).map Event.output

/-- No event waits that the running session would attend to. -/
def CaughtUp (w : Workbench) : Prop :=
  ∀ e ∈ w.queue.events, w.controller.activeSession ≠ some e.session

/-- The session that runs was just started: its process is a new one, and nothing waits of it. -/
structure JustStarted (w : Workbench) (n : Nat) : Prop where
  numbered : w.Numbered
  child : { session := n } ∈ w.children
  active : w.controller.activeSession = some n
  queue : ∀ e ∈ w.queue.events, e.session ≠ n

section Kept

variable {w : Workbench} {hs : List Happening} (hgives : ∀ h ∈ hs, h.givesUp = false)
include hgives

theorem request_of_history :
    ∀ r ∈ (w.history hs).map Exchange.request, r.givesUp = false := by
  induction hs generalizing w with
  | nil => simp [history]
  | cons h hs ih =>
      intro r hr
      rw [history, List.map_append] at hr
      rcases List.mem_append.1 hr with hfirst | hlater
      · exact request_of_not_givesUp (hgives h List.mem_cons_self) r hfirst
      · exact ih (fun h' hh' => hgives h' (List.mem_cons_of_mem _ hh')) r hlater

theorem attended_history_of_inactive (hn : w.controller.activeSession = none) :
    Exchange.attended (w.history hs) = [] ∧ (w.after hs).controller = w.controller := by
  obtain ⟨hcourse, hafter⟩ := w.history_eq_course hs
  obtain ⟨hattended, hsame⟩ :=
    Controller.attended_of_inactive hn (request_of_history (w := w) hgives)
  rw [← hcourse] at hattended
  exact ⟨hattended, hafter.trans hsame⟩

/-- What a new session attends to is what was taken of it; once it is caught up, that is all. -/
theorem JustStarted.taken_attended {n : Nat} (hnew : w.JustStarted n) :
    Exchange.taken (Exchange.attended (w.history hs)) <+:
        (w.arrivals hs).filter (fun e => e.session == n) ∧
      ((w.after hs).CaughtUp → Exchange.taken (Exchange.attended (w.history hs)) =
        (w.arrivals hs).filter fun e => e.session == n) := by
  obtain ⟨hcourse, hafter⟩ := w.history_eq_course hs
  -- What was taken of the session, and what waits of it, is what arrived of it.
  have hfifo : (Exchange.taken (w.history hs)).filter (fun e => e.session == n) ++
      (w.after hs).queue.events.filter (fun e => e.session == n) =
        (w.arrivals hs).filter fun e => e.session == n := by
    have hall := congrArg (List.filter fun e => e.session == n)
      (taken_append_queue hnew.numbered hs)
    simpa only [List.filter_append, Event.filter_session_eq_nil hnew.queue, List.nil_append]
      using hall
  -- An end can only be the last of it.
  have hpairwise : ((w.arrivals hs).filter fun e => e.session == n).Pairwise
      fun e _ => e.output.isEnd = false := by
    have hheard := hnew.numbered.arrivals_filter hs hnew.child
    rw [hheard]
    exact (Child.account_undergoAll n _).pairwise
  rw [← hfifo, List.pairwise_append] at hpairwise
  obtain ⟨htakes, -, hwaits⟩ := hpairwise
  rw [hcourse] at htakes
  obtain ⟨htaken, hruns⟩ := Controller.taken_attended hnew.active
    (request_of_history (w := w) hgives) htakes
  rw [← hcourse] at htaken hruns
  rw [← hafter] at hruns
  rw [htaken, ← hfifo]
  refine ⟨List.prefix_append _ _, ?_⟩
  intro hcaught
  have hnone : (w.after hs).queue.events.filter (fun e => e.session == n) = [] := by
    rcases hruns with hactive | ⟨-, e, he, hend⟩
    · apply Event.filter_session_eq_nil
      intro e he hsession
      exact hcaught e he (hsession ▸ hactive)
    · exact Event.eq_nil_of_isEnd (hwaits e he) hend
  rw [hnone, List.append_nil]

/--
What a session attends to in a run that begins when its process is started, and in which it is not
given up: the beginning of what the process is told of, and all of it once it is caught up.
-/
theorem JustStarted.attended_history {n : Nat} (hnew : w.JustStarted n) :
    ∃ heard, heard <+: w.told n hs ∧
      ((w.after hs).CaughtUp → heard = w.told n hs) ∧
      Exchange.attended (w.history hs) =
        w.controller.course (heard.map fun output => .take ⟨n, output⟩) ∧
      (w.after hs).controller =
        w.controller.after (heard.map fun output => .take ⟨n, output⟩) := by
  obtain ⟨hbegins, hall⟩ := hnew.taken_attended hgives
  -- What was taken carries one and the same session.
  have hown : Exchange.taken (Exchange.attended (w.history hs)) =
      ((Exchange.taken (Exchange.attended (w.history hs))).map Event.output).map
        fun output => ⟨n, output⟩ := by
    rw [List.map_map]
    refine (List.map_id _).symm.trans (List.map_congr_left ?_)
    intro e he
    obtain rfl : e.session = n := by simpa using (List.mem_filter.1 (hbegins.subset he)).2
    rfl
  -- The exchanges that are attended to are those of the events that are.
  obtain ⟨hcourse, hafter⟩ := w.history_eq_course hs
  have hunchanged : ∀ m ∈ w.controller.course ((w.history hs).map Exchange.request),
      m.attends = false → m.after = m.before := by
    intro m hm hnot
    rw [← hcourse] at hm
    exact (Exchange.unchanged_of_not_attends
      (request_of_history hgives _ (List.mem_map_of_mem hm)) hnot).1
  obtain ⟨hattended, hfinal⟩ := w.controller.filter_course hunchanged
  rw [← hcourse] at hattended hfinal
  have hrequests : ((w.history hs).filter Exchange.attends).map Exchange.request =
      ((Exchange.taken (Exchange.attended (w.history hs))).map Event.output).map
        fun output => .take ⟨n, output⟩ := by
    have htakes := Exchange.request_attended (w.history hs)
    rw [hown, List.map_map] at htakes
    exact htakes
  rw [hrequests] at hattended hfinal
  exact ⟨_, hbegins.map _, fun hcaught => congrArg _ (hall hcaught), hattended,
    hafter.trans hfinal⟩

end Kept

end Workbench
end VerifierSession
