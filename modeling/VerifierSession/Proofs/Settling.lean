import VerifierSession.Proofs.Accounts

/-!
# Steps are runs

After an action the readers go on by themselves, and events are taken, as far as that goes.  All of
that is a run like any other, so what is said of runs is said of steps.

* `Workbench.settle_run`, `Workbench.exhaust_run`: going on is a run;
* `Workbench.step_run`: a step is a run around its action;
* `Workbench.AtRest`: nothing waits, and no reader has anything to do;
* `Workbench.atRest_of_step_drain`, `Workbench.atRest_of_step_complete`: how far a step goes.
-/

namespace VerifierSession

/-- Whether a deed may come with an action: a reader goes on, or a pipe is let go of. -/
def Deed.isAttendant (d : Deed) : Bool :=
  decide (d ∈ Deed.own) || decide (d = .on .records .release) ||
    decide (d = .on .complaints .release)

/-- Whether a happening may come with the action of a step: deeds, and that events are taken. -/
def Happening.isAttendant : Happening → Bool
  | .deed _ d => d.isAttendant
  | .action .complete => true
  | .action .drain => true
  | _ => false

theorem Happening.givesUp_of_isAttendant {h : Happening} (hattend : h.isAttendant = true) :
    h.givesUp = false := by
  cases h with
  | deed n d => rfl
  | action a => cases a <;> first | rfl | cases hattend

theorem Controller.activeSession_of_after {c : Controller} {rs : List Request} {n : Nat}
    (hgives : ∀ r ∈ rs, r.givesUp = false) (hn : (c.after rs).activeSession = some n) :
    c.activeSession = some n := by
  induction rs generalizing c with
  | nil => exact hn
  | cons r rs ih =>
      -- Only what gives a session up, or begins one, could have made another one the active one.
      have hlater := ih (fun r' hr' => hgives r' (List.mem_cons_of_mem _ hr')) hn
      exact (c.answer r).activeSession_of_not_givesUp (hgives r List.mem_cons_self) hlater

namespace Workbench

/-! ## Going on is a run -/

/-- A bench goes on to another one in a run in which nobody acts but takes events. -/
def GoesOn (w left : Workbench) (calls : List HostCall) : Prop :=
  ∃ hs, (∀ h ∈ hs, h.isAttendant = true) ∧ left = w.after hs ∧ calls = w.calls hs

theorem calls_run (w : Workbench) (hs hs' : List Happening) :
    w.calls (hs ++ hs') = w.calls hs ++ (w.after hs).calls hs' := by
  induction hs generalizing w with
  | nil => rfl
  | cons h hs ih => simp only [List.cons_append, calls, after, ih, List.append_assoc]

namespace GoesOn

variable {w w' left : Workbench} {calls calls' : List HostCall}

theorem refl (w : Workbench) : w.GoesOn w [] :=
  ⟨[], by simp, rfl, rfl⟩

theorem trans (h : w.GoesOn w' calls) (h' : w'.GoesOn left calls') :
    w.GoesOn left (calls ++ calls') := by
  obtain ⟨hs, hattend, rfl, rfl⟩ := h
  obtain ⟨hs', hattend', rfl, rfl⟩ := h'
  refine ⟨hs ++ hs', ?_, (w.after_run hs hs').symm, (w.calls_run hs hs').symm⟩
  intro h hmem
  exact (List.mem_append.1 hmem).elim (hattend h) (hattend' h)

theorem next {h : Happening} (hattend : h.isAttendant = true)
    (hlater : (w.befall h).1.GoesOn left calls) : w.GoesOn left ((w.befall h).2 ++ calls) := by
  obtain ⟨hs, hattends, rfl, rfl⟩ := hlater
  refine ⟨h :: hs, ?_, rfl, rfl⟩
  intro h' hmem
  rcases List.mem_cons.1 hmem with rfl | hmem
  · exact hattend
  · exact hattends h' hmem

theorem activeSession (h : w.GoesOn left calls) {n : Nat}
    (hn : left.controller.activeSession = some n) : w.controller.activeSession = some n := by
  obtain ⟨hs, hattend, rfl, -⟩ := h
  induction hs generalizing w with
  | nil => exact hn
  | cons h hs ih =>
      have hlater := ih (fun h' hh' => hattend h' (List.mem_cons_of_mem _ hh')) hn
      rw [controller_befall] at hlater
      cases h with
      | deed n d => exact hlater
      | action a =>
          refine Controller.activeSession_of_after ?_ hlater
          intro r hr
          by_contra hgives
          have hquiet := Happening.givesUp_of_isAttendant (hattend (.action a) List.mem_cons_self)
          rcases givesUp_of_mem_requests hr (by simpa using hgives) with ⟨path, flags, rfl⟩ | rfl
          · cases hquiet
          · cases hquiet

end GoesOn

theorem settle_goesOn (w : Workbench) (admits : Bool) : w.GoesOn (w.settle admits) [] := by
  fun_induction settle w admits with
  | case1 w c d h _ ih =>
      have hown : d ∈ Deed.own := (next?_some h).2.1
      exact GoesOn.next (h := .deed c.session d)
        (by simp [Happening.isAttendant, Deed.isAttendant, hown]) ih
  | case2 w h => exact .refl w

/-- Once they have gone on, there is nothing that they could do next. -/
theorem next?_settle (w : Workbench) (admits : Bool) : (w.settle admits).next? admits = none := by
  fun_induction settle w admits with
  | case1 w c d h _ ih => exact ih
  | case2 w h => exact h

/-- The action that takes all events, or those that come while a verification is running. -/
def taking (running : Bool) : Action :=
  if running then .complete else .drain

theorem takeMore_eq (w : Workbench) (running : Bool) :
    w.takeMore running = w.befall (.action (taking running)) := by
  cases running <;> rfl

theorem exhaust_goesOn (w : Workbench) (running : Bool) :
    w.GoesOn (w.exhaust running).1 (w.exhaust running).2 := by
  fun_induction exhaust w running with
  | case1 w _ => exact w.settle_goesOn true
  | case2 w _ left calls hrest ih =>
      rw [hrest, takeMore_eq] at ih
      rw [takeMore_eq]
      have htaking : (Happening.action (taking running)).isAttendant = true := by
        cases running <;> rfl
      exact (w.settle_goesOn true).trans (.next htaking ih)

/-- After that nothing is left to take, or nothing that is waited for, and nobody can go on. -/
theorem exhaust_isDone (w : Workbench) (running : Bool) :
    (w.exhaust running).1.isDone running = true ∧ (w.exhaust running).1.next? true = none := by
  fun_induction exhaust w running with
  | case1 w hdone => exact ⟨hdone, w.next?_settle true⟩
  | case2 w _ left calls hrest ih =>
      rw [hrest] at ih
      exact ih

/-! ## At rest -/

/-- Nothing waits to be taken, and there is nothing to do for any reader. -/
structure AtRest (w : Workbench) : Prop where
  queue : w.queue.events = []
  children : ∀ c ∈ w.children, c.AtRest

theorem atRest_of_next? {w : Workbench} (hqueue : w.queue.events = [])
    (h : w.next? true = none) : w.AtRest := by
  refine ⟨hqueue, ?_⟩
  intro c hc d hd
  -- There is room in an empty queue, so whoever has something to do would have been found.
  have hnot := List.find?_eq_none.1 h (c, d)
    (List.mem_flatMap.2 ⟨c, List.mem_reverse.2 hc, List.mem_map_of_mem hd⟩)
  have hroom : (w.queue.room != 0) = true := by
    simp [Queue.room, hqueue, queueCapacity]
  simpa [hroom] using hnot

theorem AtRest.exhaust {w : Workbench} (h : w.AtRest) (running : Bool) :
    w.exhaust running = (w, []) := by
  have hnext : w.next? true = none := by
    refine List.find?_eq_none.2 ?_
    rintro ⟨c, d⟩ hmem
    simp only [List.mem_flatMap, List.mem_reverse, List.mem_map, Prod.mk.injEq] at hmem
    obtain ⟨c', hc, d', hd, rfl, rfl⟩ := hmem
    simp [h.children c' hc d' hd]
  have hsettled : w.settle true = w := by
    rw [settle]
    split
    · next hsome =>
        rw [hnext] at hsome
        cases hsome
    · rfl
  rw [Workbench.exhaust, hsettled, if_pos (by simp [isDone, h.queue])]

/-! ## Steps -/

/-- Deeds without anything to hand in can be done one by one. -/
theorem stir_pair (w : Workbench) (n : Nat) {d d' : Deed} (hd : d.hands = false)
    (hd' : d'.hands = false) : w.stir n [d, d'] = (w.deed n d).deed n d' := by
  have hdeed : ∀ (w : Workbench) (d : Deed), d.hands = false → w.deed n d = w.stir n [d] := by
    intro w d hd
    simp [deed, hd]
  have hboth : ∀ d'' ∈ [d, d'], d''.hands = false := by simp [hd, hd']
  have hfirst : ∀ d'' ∈ [d], d''.hands = false := by simp [hd]
  have hsecond : ∀ d'' ∈ [d'], d''.hands = false := by simp [hd']
  rw [hdeed _ _ hd', hdeed _ _ hd, w.stir_of_not_hands n hboth, w.stir_of_not_hands n hfirst,
    stir_of_not_hands _ n hsecond]
  simp only [processes, List.map_map]
  congr 1
  refine List.map_congr_left ?_
  intro c _
  simp only [Function.comp_apply, Child.undergoAll_session]
  split <;> rfl

/-- Those who hold the pipes of a session that is given up let go of them; no other action does. -/
theorem actAlone_cases (w : Workbench) (a : Action) :
    w.actAlone a = w.act a ∨
      ∃ n, w.actAlone a =
        ((w.act a).1.stir n [.on .records .release, .on .complaints .release], (w.act a).2) := by
  unfold actAlone
  cases hactive : w.controller.activeSession with
  | none => cases a <;> exact .inl rfl
  | some n =>
      cases a with
      | verify path flags => exact .inr ⟨n, rfl⟩
      | shutdown => exact .inr ⟨n, rfl⟩
      | _ => exact .inl rfl

theorem actAlone_calls (w : Workbench) (a : Action) : (w.actAlone a).2 = (w.act a).2 := by
  rcases w.actAlone_cases a with halone | ⟨n, hreleased⟩
  · rw [halone]
  · rw [hreleased]

/-- After an action, what goes with it comes before the readers go on. -/
theorem actAlone_goesOn (w : Workbench) (a : Action) : (w.act a).1.GoesOn (w.actAlone a).1 [] := by
  rcases w.actAlone_cases a with halone | ⟨n, hreleased⟩
  · rw [halone]
    exact .refl _
  · rw [hreleased, stir_pair _ n rfl rfl]
    exact GoesOn.next (h := .deed n (.on .records .release)) rfl
      (GoesOn.next (h := .deed n (.on .complaints .release)) rfl (.refl _))

theorem drained_goesOn (w : Workbench) (drained : Bool) :
    w.GoesOn (if drained then w.exhaust false else (w, [])).1
      (if drained then w.exhaust false else (w, [])).2 := by
  cases drained with
  | false => exact .refl w
  | true => exact w.exhaust_goesOn false

theorem drain_of_nil {w : Workbench} (h : w.queue.events = []) : w.drain = (w, []) := by
  obtain ⟨setup, directory, controller, children, events, bounded⟩ := w
  cases h
  rfl

/-- Who waits for an end takes events before and after that. -/
theorem step_of_waits (w : Workbench) (drained : Bool) {a : Action}
    (ha : a = .complete ∨ a = .abandon) :
    w.step a drained =
      let waiting := w.exhaust true
      let ended := (waiting.1.act a).1.exhaust true
      let left := if drained then ended.1.exhaust false else (ended.1, [])
      (left.1, waiting.2 ++ (waiting.1.act a).2.1 ++ ended.2 ++ left.2,
        .status ended.1.controller.status) := by
  rcases ha with rfl | rfl <;> rfl

/-- Before and after its action a step goes on. -/
theorem step_goesOn (w : Workbench) (a : Action) (drained : Bool) :
    ∃ w' before after, w.GoesOn w' before ∧ (w'.act a).1.GoesOn (w.step a drained).1 after ∧
      (w.step a drained).2.1 = before ++ (w'.act a).2.1 ++ after := by
  have hwaits : a = .complete ∨ a = .abandon →
      ∃ w' before after, w.GoesOn w' before ∧ (w'.act a).1.GoesOn (w.step a drained).1 after ∧
        (w.step a drained).2.1 = before ++ (w'.act a).2.1 ++ after := by
    intro ha
    rw [w.step_of_waits drained ha]
    exact ⟨_, _, _, w.exhaust_goesOn true,
      (exhaust_goesOn _ true).trans (drained_goesOn _ drained), List.append_assoc ..⟩
  cases a with
  | poll budget => exact ⟨w, [], [], .refl w, .refl _, by simp [step]⟩
  | complete => exact hwaits (.inl rfl)
  | abandon => exact hwaits (.inr rfl)
  | drain =>
      -- Who drains goes on until nothing waits; to drain the queue then changes nothing.
      obtain ⟨hdone, -⟩ := w.exhaust_isDone false
      have hnone : (w.exhaust false).1.queue.events = [] := by simpa [isDone] using hdone
      refine ⟨_, _, [], w.exhaust_goesOn false, ?_, ?_⟩
      · simp only [act, drain_of_nil hnone]
        exact .refl _
      · simp only [act, drain_of_nil hnone, step, List.append_nil]
  | _ =>
      refine ⟨w, [], _, .refl w,
        (actAlone_goesOn w _).trans ((settle_goesOn _ _).trans (drained_goesOn _ drained)), ?_⟩
      simp only [step, actAlone_calls, List.nil_append]

/--
A step is a run around its action: before and after it the readers go on, pipes are let go of, and
events are taken.
-/
theorem step_run (w : Workbench) (a : Action) (drained : Bool) :
    ∃ before later, (∀ h ∈ before ++ later, h.isAttendant = true) ∧
      (w.step a drained).1 = w.after (before ++ .action a :: later) ∧
      (w.step a drained).2.1 = w.calls (before ++ .action a :: later) := by
  obtain ⟨w', first, last, ⟨before, hbefore, rfl, rfl⟩, ⟨later, hlater, hleft, rfl⟩, hcalls⟩ :=
    w.step_goesOn a drained
  refine ⟨before, later, ?_, ?_, ?_⟩
  · intro h hmem
    exact (List.mem_append.1 hmem).elim (hbefore h) (hlater h)
  · rw [hleft, after_run]
    rfl
  · rw [hcalls, calls_run, List.append_assoc]
    rfl

/-! ## How far a step goes -/

/-- After all events were wanted, the bench is at rest. -/
theorem atRest_exhaust (w : Workbench) : (w.exhaust false).1.AtRest := by
  obtain ⟨hdone, hnext⟩ := w.exhaust_isDone false
  exact atRest_of_next? (by simpa [isDone] using hdone) hnext

/-- Whoever waited for an end left the bench at rest, if a verification still runs. -/
theorem atRest_of_running {w : Workbench}
    (h : (w.exhaust true).1.controller.activeSession.isSome = true) :
    (w.exhaust true).1.AtRest := by
  obtain ⟨hdone, hnext⟩ := w.exhaust_isDone true
  refine atRest_of_next? ?_ hnext
  obtain ⟨n, hn⟩ := Option.isSome_iff_exists.1 h
  simpa [isDone, hn] using hdone

/--
Who waits for an end is answered the status.  If that is of a verification that runs, nothing is
left to take, and no reader can go on.
-/
theorem step_of_waits_reply (w : Workbench) (drained : Bool) {a : Action}
    (ha : a = .complete ∨ a = .abandon) :
    (w.step a drained).2.2 = .status (w.step a false).1.controller.status ∧
      (∃ calls, (w.step a false).1.GoesOn (w.step a drained).1 calls) ∧
      ((w.step a false).1.controller.activeSession.isSome = true →
        (w.step a drained).1 = (w.step a false).1 ∧ (w.step a false).1.AtRest) := by
  rw [w.step_of_waits drained ha, w.step_of_waits false ha]
  refine ⟨rfl, ⟨_, drained_goesOn _ drained⟩, ?_⟩
  intro hruns
  have hrest : (((w.exhaust true).1.act a).1.exhaust true).1.AtRest := atRest_of_running hruns
  refine ⟨?_, hrest⟩
  cases drained with
  | false => rfl
  | true =>
      -- A bench at rest stays as it is, however much of it is wanted.
      have hkept := hrest.exhaust false
      simp only [if_true, hkept, Bool.false_eq_true, if_false]

end Workbench
end VerifierSession
