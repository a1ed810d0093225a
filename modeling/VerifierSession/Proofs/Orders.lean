import VerifierSession.Proofs.Accounts

/-!
# Kills and launches

A controller does not deal with processes itself.  All it orders is that the process of the session
that it gives up is killed, and that one is launched for the session that it starts.

* `Exchange.orders`: what is ordered in an exchange, the kill before the launch;
* `Workbench.children_of_orders`: processes come about and are killed by orders, by nothing else;
* `History.ordered`: orders are given in the order of the sessions, a kill after the launch;
* `Workbench.one_process_runs`: a process that runs is that of the running session, and each is
  killed at most once, before a later one is launched.
-/

namespace VerifierSession

/-- An order: that the process of a session is killed, or launched. -/
inductive Order where
  | kill (session : Nat)
  | launch (session : Nat)
  deriving DecidableEq, Repr

namespace Order

def killed? : Order → Option Nat
  | .kill n => some n
  | .launch _ => none

def launched? : Order → Option Nat
  | .kill _ => none
  | .launch n => some n

/-- The place of an order among all that could be given: session by session, the launch first. -/
def rank : Order → Nat
  | .launch n => 2 * n
  | .kill n => 2 * n + 1

def carryOut (children : List Child) : Order → List Child
  | .kill n => children.map fun c => if c.session = n then c.finish .signaled else c
  | .launch n => { session := n } :: children

end Order

namespace Exchange

def killed (m : Exchange) : Option Nat :=
  match m.request with
  | .verify s path flags => (m.before.verify s path flags).killed
  | .shutdown => m.before.activeSession
  | _ => none

def orders (m : Exchange) : List Order :=
  m.killed.toList.map .kill ++ m.started.toList.map .launch

variable {m : Exchange} {n : Nat}

/-- The process of the running session is killed when the session is given up, and only then. -/
theorem killed_eq_some_iff :
    m.killed = some n ↔ m.request.givesUp = true ∧ m.before.activeSession = some n := by
  obtain ⟨c, r⟩ := m
  cases r with
  | verify s path flags =>
      have hkilled : (c.verify s path flags).killed = c.activeSession := by
        cases h : Controller.prepare s path flags with
        | mk calls result =>
            cases result with
            | error failure => rw [c.verify_of_error h]
            | ok found => rw [c.verify_of_ok h]
      simp [killed, Request.givesUp, hkilled]
  | shutdown => simp [killed, Request.givesUp]
  | _ => simp [killed, Request.givesUp]

theorem killed_of_givesUp (h : m.request.givesUp = true) :
    m.killed = m.before.activeSession := by
  refine Option.ext ?_
  intro n
  rw [killed_eq_some_iff]
  exact and_iff_right h

theorem started_eq_some (h : m.started = some n) :
    n = m.before.nextSession ∧ m.after.nextSession = n + 1 ∧ m.after.activeSession = some n := by
  obtain ⟨c, r⟩ := m
  cases r with
  | verify s path flags =>
      obtain ⟨hnext, hcases⟩ := c.verify_cases s path flags
      rcases hcases with ⟨failure, hresult, -⟩ | ⟨document, command, hresult, hphase⟩
      · simp [started, hresult] at h
      · have hn : c.nextSession = n := by simpa [started, hresult] using h
        refine ⟨hn.symm, ?_, ?_⟩
        · rw [← hn]
          exact hnext
        · simp [after, Controller.respond, Controller.activeSession, hphase, hn]
  | _ => cases h

/-- A session that runs after others could be given up was started. -/
theorem started_of_givesUp (hgives : m.request.givesUp = true)
    (hn : m.after.activeSession = some n) : m.started = some n := by
  obtain ⟨c, r⟩ := m
  cases r with
  | verify s path flags =>
      rcases (c.verify_cases s path flags).2 with
        ⟨failure, -, hphase⟩ | ⟨document, command, hresult, hphase⟩
      · simp [after, Controller.respond, Controller.activeSession, hphase] at hn
      · simp only [after, Controller.respond, Controller.activeSession, hphase] at hn
        simp [started, hresult, Option.some.inj hn]
  | shutdown => cases hn
  | _ => cases hgives

theorem orders_eq_nil (h : m.request.givesUp = false) : m.orders = [] := by
  obtain ⟨c, r⟩ := m
  cases r with
  | verify s path flags => cases h
  | shutdown => cases h
  | _ => rfl

theorem mem_orders {o : Order} :
    o ∈ m.orders ↔ (∃ n, m.killed = some n ∧ o = .kill n) ∨
      ∃ n, m.started = some n ∧ o = .launch n := by
  simp [orders, eq_comm]

theorem launched_orders (ms : List Exchange) :
    (ms.flatMap orders).filterMap Order.launched? = ms.filterMap started := by
  induction ms with
  | nil => rfl
  | cons m ms ih =>
      have hfirst : m.orders.filterMap Order.launched? = m.started.toList := by
        cases hkilled : m.killed <;> cases hstarted : m.started <;>
          simp [orders, hkilled, hstarted, List.filterMap_cons, Order.launched?]
      rw [List.flatMap_cons, List.filterMap_append, ih, hfirst]
      cases hstarted : m.started <;> simp [hstarted]

end Exchange

/-! ## Orders in a history -/

/-- How the orders so far fit together, and with the controller they come to. -/
structure Ordered (c : Controller) (orders : List Order) : Prop where
  increasing : orders.Pairwise fun o o' => o.rank < o'.rank
  begun : ∀ o ∈ orders, o.rank < 2 * c.nextSession
  launched : ∀ n, .kill n ∈ orders → .launch n ∈ orders
  active : ∀ n, c.activeSession = some n →
    .launch n ∈ orders ∧ ∀ o ∈ orders, o.rank ≤ (Order.launch n).rank

namespace Ordered

variable {m : Exchange} {orders : List Order}

theorem rank_lt (h : Ordered m.before orders) {o o' : Order} (ho : o ∈ orders)
    (ho' : o' ∈ m.orders) : o.rank < o'.rank := by
  rcases Exchange.mem_orders.1 ho' with ⟨n, hkilled, rfl⟩ | ⟨n, hstarted, rfl⟩
  · -- The last launch was that of the process that is killed.
    have hactive := (Exchange.killed_eq_some_iff.1 hkilled).2
    have hle : o.rank ≤ 2 * n := (h.active n hactive).2 o ho
    exact Nat.lt_succ_of_le hle
  · have hn := (Exchange.started_eq_some hstarted).1
    have hlt : o.rank < 2 * m.before.nextSession := h.begun o ho
    rw [← hn] at hlt
    exact hlt

theorem increasing_orders (h : Ordered m.before orders) :
    m.orders.Pairwise fun o o' => o.rank < o'.rank := by
  have hkill : ∀ n n', m.killed = some n → m.started = some n' →
      (Order.kill n).rank < (Order.launch n').rank := by
    intro n n' hkilled hstarted
    have hactive := (Exchange.killed_eq_some_iff.1 hkilled).2
    have hlaunch : (Order.launch n).rank < 2 * m.before.nextSession :=
      h.begun _ (h.active n hactive).1
    have hn' := (Exchange.started_eq_some hstarted).1
    simp only [Order.rank] at hlaunch ⊢
    omega
  unfold Exchange.orders
  cases hkilled : m.killed with
  | none => cases m.started <;> simp
  | some n =>
      cases hstarted : m.started with
      | none => simp
      | some n' => simpa using hkill n n' hkilled hstarted

theorem next (h : Ordered m.before orders) : Ordered m.after (orders ++ m.orders) where
  increasing := by
    refine List.pairwise_append.2 ⟨h.increasing, h.increasing_orders, ?_⟩
    intro o ho o' ho'
    exact h.rank_lt ho ho'
  begun := by
    have hle := m.answer.nextSession_le
    intro o ho
    rcases List.mem_append.1 ho with hold | hnew
    · have hlt := h.begun o hold
      omega
    · rcases Exchange.mem_orders.1 hnew with ⟨n, hkilled, rfl⟩ | ⟨n, hstarted, rfl⟩
      · have hactive := (Exchange.killed_eq_some_iff.1 hkilled).2
        have hlaunch := h.begun _ (h.active n hactive).1
        simp only [Order.rank] at hlaunch ⊢
        omega
      · have hnext := (Exchange.started_eq_some hstarted).2.1
        simp only [Order.rank]
        omega
  launched := by
    intro n hn
    rcases List.mem_append.1 hn with hold | hnew
    · exact List.mem_append_left _ (h.launched n hold)
    · -- Only the process of the running session is killed, and that was launched.
      rcases Exchange.mem_orders.1 hnew with ⟨n', hkilled, heq⟩ | ⟨n', -, heq⟩
      · cases heq
        have hactive := (Exchange.killed_eq_some_iff.1 hkilled).2
        exact List.mem_append_left _ (h.active n hactive).1
      · cases heq
  active := by
    intro n hn
    cases hgives : m.request.givesUp with
    | false =>
        rw [Exchange.orders_eq_nil hgives, List.append_nil]
        exact h.active n (m.answer.activeSession_of_not_givesUp hgives hn)
    | true =>
        have hstarted := Exchange.started_of_givesUp hgives hn
        have hlaunch : Order.launch n ∈ m.orders := Exchange.mem_orders.2 (.inr ⟨n, hstarted, rfl⟩)
        refine ⟨List.mem_append_right _ hlaunch, ?_⟩
        intro o ho
        rcases List.mem_append.1 ho with hold | hnew
        · exact Nat.le_of_lt (h.rank_lt hold hlaunch)
        · rcases Exchange.mem_orders.1 hnew with ⟨n', hkilled, rfl⟩ | ⟨n', hstarted', rfl⟩
          · have hactive := (Exchange.killed_eq_some_iff.1 hkilled).2
            have hbegun := h.begun _ (h.active n' hactive).1
            have hnext := (Exchange.started_eq_some hstarted).1
            simp only [Order.rank] at hbegun ⊢
            omega
          · rw [hstarted] at hstarted'
            cases hstarted'
            exact Nat.le_refl _

/-! ### What the order of orders says -/

variable {c : Controller} {before after : List Order} {n n' : Nat}

theorem eq_kill_of_killed? {o : Order} (ho : o.killed? = some n) : o = .kill n := by
  cases o with
  | launch _ => cases ho
  | kill _ =>
      cases ho
      rfl

theorem killed_nodup (h : Ordered c orders) : (orders.filterMap Order.killed?).Nodup := by
  refine List.Pairwise.filterMap Order.killed? ?_ h.increasing
  intro o o' hlt n ho n' ho' heq
  rw [eq_kill_of_killed? ho, eq_kill_of_killed? ho', heq] at hlt
  exact Nat.lt_irrefl _ hlt

theorem launch_before_kill (h : Ordered c orders) (hsplit : orders = before ++ .kill n :: after) :
    .launch n ∈ before := by
  have hlaunched : Order.launch n ∈ orders := by
    apply h.launched
    rw [hsplit]
    exact List.mem_append_right _ List.mem_cons_self
  have hincreasing := h.increasing
  rw [hsplit] at hlaunched hincreasing
  rcases List.mem_append.1 hlaunched with hbefore | hafter
  · exact hbefore
  · -- After the kill there is no place for the launch.
    rcases List.mem_cons.1 hafter with heq | hmem
    · cases heq
    · have hlt := (List.pairwise_cons.1 (List.pairwise_append.1 hincreasing).2.1).1 _ hmem
      simp only [Order.rank] at hlt
      omega

theorem le_of_kill (h : Ordered c orders) (hsplit : orders = before ++ .kill n :: after)
    (hn' : .launch n' ∈ before) : n' ≤ n := by
  have hincreasing := h.increasing
  rw [hsplit] at hincreasing
  have hlt := (List.pairwise_append.1 hincreasing).2.2 _ hn' _ List.mem_cons_self
  simp only [Order.rank] at hlt
  omega

end Ordered

theorem History.ordered {past : List Exchange} {c : Controller} (h : History past c) :
    Ordered c (past.flatMap Exchange.orders) := by
  induction h with
  | start =>
      refine ⟨List.Pairwise.nil, by simp, by simp, ?_⟩
      intro n hn
      cases hn
  | @next past m _ _ ih =>
      rw [List.flatMap_append, List.flatMap_singleton]
      exact ih.next

/-! ## The processes -/

namespace Workbench

/-- What befalls the process of a session in a happening, beyond what is ordered. -/
def ownBefalling (w : Workbench) (n : Nat) (h : Happening) : List Deed :=
  if h.givesUp then [] else w.befalling n h

/-- The processes after what they, their readers, and those who hold their pipes, do themselves. -/
def stirred (w : Workbench) (h : Happening) : List Child :=
  w.children.map fun c => (c.undergoAll (w.ownBefalling c.session h)).1

theorem orders_course_take (c : Controller) (es : List Event) :
    (c.course (es.map .take)).flatMap Exchange.orders = [] := by
  induction es generalizing c with
  | nil => rfl
  | cons e es ih => exact ih _

/-- The process of the running session is killed as the order says. -/
theorem map_befalling_of_givesUp {w : Workbench} {a : Action}
    (h : w.affected a = w.controller.activeSession.map fun n => (n, [.finish .signaled])) :
    w.children.map (fun c => (c.undergoAll (w.befalling c.session (.action a))).1) =
      (w.controller.activeSession.toList.map Order.kill).foldl Order.carryOut w.children := by
  simp only [befalling, h]
  cases w.controller.activeSession with
  | none => simp [Child.undergoAll]
  | some n =>
      refine List.map_congr_left ?_
      intro c _
      simp only [Option.map_some]
      split <;> rfl

theorem launched_eq (w : Workbench) (path : Path) (flags : Flags) (children : List Child) :
    w.launched (.action (.verify path flags)) ++ children =
      ((Exchange.started ⟨w.controller, .verify (w.setup.surroundings w.directory) path flags⟩)
        |>.toList.map Order.launch).foldl Order.carryOut children := by
  simp only [launched, Exchange.started]
  cases (w.controller.verify (w.setup.surroundings w.directory) path flags).result with
  | error failure => rfl
  | ok found => rfl

/-- Beyond what processes do themselves, they are what the orders make of them. -/
theorem children_of_orders (w : Workbench) (h : Happening) :
    (w.befall h).1.children =
      ((w.exchanges h).flatMap Exchange.orders).foldl Order.carryOut (w.stirred h) := by
  have hsingle : ∀ r : Request, (w.controller.course [r]).flatMap Exchange.orders =
      Exchange.orders ⟨w.controller, r⟩ := by
    intro r
    simp [Controller.course]
  have hspared : ∀ a, Happening.givesUp (.action a) = true →
      w.stirred (.action a) = w.children := by
    intro a hgives
    simp [stirred, ownBefalling, hgives, Child.undergoAll]
  rw [children_befall]
  cases h with
  | deed n d => rfl
  | action a =>
      cases a with
      | verify path flags =>
          rw [map_befalling_of_givesUp rfl, launched_eq, hspared _ rfl, exchanges, requests,
            hsingle, Exchange.orders, Exchange.killed_of_givesUp rfl, List.foldl_append]
      | shutdown =>
          rw [map_befalling_of_givesUp rfl, hspared _ rfl, exchanges, requests, hsingle,
            Exchange.orders, Exchange.killed_of_givesUp rfl, List.foldl_append]
          rfl
      | abandon => simp only [exchanges, requests, orders_course_take]; rfl
      | poll budget => simp only [exchanges, requests, orders_course_take]; rfl
      | drain => simp only [exchanges, requests, orders_course_take]; rfl
      | complete => simp only [exchanges, requests, orders_course_take]; rfl
      | _ => rfl

/-! ## The processes that run -/

/-- Where no two processes are of the same session, one of a given session runs at most. -/
theorem Numbered.length_running_le_one {w : Workbench} (hw : w.Numbered)
    (hactive : ∀ child ∈ w.children, child.isRunning = true →
      w.controller.activeSession = some child.session) :
    (w.children.filter Child.isRunning).length ≤ 1 := by
  have hrunning : ∀ child ∈ w.children.filter Child.isRunning,
      w.controller.activeSession = some child.session := by
    intro child hmem
    obtain ⟨hchild, hruns⟩ := List.mem_filter.1 hmem
    exact hactive child hchild hruns
  have hdistinct : ((w.children.filter Child.isRunning).map Child.session).Nodup :=
    hw.distinct.sublist (List.filter_sublist.map Child.session)
  generalize w.children.filter Child.isRunning = running at hrunning hdistinct
  match running with
  | [] => exact Nat.zero_le _
  | [_] => exact Nat.le_refl _
  | first :: second :: rest =>
      have hfirst := hrunning first List.mem_cons_self
      have hsecond := hrunning second (List.mem_cons_of_mem _ List.mem_cons_self)
      have hsame : first.session = second.session := by
        rw [hfirst] at hsecond
        exact Option.some.inj hsecond
      simp [hsame] at hdistinct

/-- A process that runs after deeds ran before them, and none of them ended it. -/
theorem isRunning_of_undergoAll {c : Child} {ds : List Deed}
    (h : (c.undergoAll ds).1.isRunning = true) :
    c.isRunning = true ∧ ∀ termination, .finish termination ∉ ds := by
  induction ds generalizing c with
  | nil => exact ⟨h, by simp⟩
  | cons d ds ih =>
      obtain ⟨hafter, hlater⟩ := ih h
      cases d with
      | on o s => exact ⟨by simpa [Child.undergo] using hafter, by simpa using hlater⟩
      | tell =>
          refine ⟨?_, by simpa using hlater⟩
          simp only [Child.tell] at hafter
          split at hafter
          · split at hafter <;> exact hafter
          · exact hafter
      | finish termination =>
          simp only [Child.finish] at hafter
          split at hafter
          · cases hafter
          · next hended => exact absurd hafter hended

theorem activeSession_of_befalling {w : Workbench} {h : Happening} {child : Child}
    (hactive : w.controller.activeSession = some child.session)
    (hruns : (child.undergoAll (w.befalling child.session h)).1.isRunning = true)
    (hends : ∀ termination,
      (⟨child.session, .ended termination⟩ : Event) ∉ Exchange.taken (w.exchanges h)) :
    (w.befall h).1.controller.activeSession = some child.session := by
  rw [controller_befall]
  cases h with
  | deed n d => exact hactive
  | action a =>
      refine activeSession_after hactive ?_ ?_
      · -- If the session were given up, its process would be killed.
        intro r hr
        by_contra hne
        have hkill : .finish .signaled ∈ w.befalling child.session (.action a) := by
          rcases givesUp_of_mem_requests hr (by simpa using hne) with ⟨path, flags, rfl⟩ | rfl
          · simp [befalling, affected, hactive]
          · simp [befalling, affected, hactive]
        exact (isRunning_of_undergoAll hruns).2 .signaled hkill
      · intro termination hr
        rw [← Controller.request_course w.controller (w.requests a)] at hr
        obtain ⟨m, hm, hrequest⟩ := List.mem_map.1 hr
        exact hends termination (Exchange.mem_taken.2 ⟨m, hm, hrequest⟩)

variable (setup : Setup) (directory : Directory)

theorem activeSession_of_isRunning (hs : List Happening) :
    ∀ child ∈ ((opened setup directory).after hs).children, child.isRunning = true →
      ((opened setup directory).after hs).controller.activeSession = some child.session := by
  induction hs using List.reverseRecOn with
  | nil => simp [opened, after]
  | append_singleton hs h ih =>
      intro child' hchild' hruns
      have haccount := accounted setup directory (hs ++ [h]) hchild'
      rw [after_append] at hchild' ⊢
      rw [children_befall] at hchild'
      rcases List.mem_append.1 hchild' with hnew | hold
      · obtain ⟨rfl, -, hactive⟩ := session_of_mem_launched hnew
        exact hactive
      · obtain ⟨child, hchild, rfl⟩ := List.mem_map.1 hold
        rw [Child.undergoAll_session] at haccount ⊢
        have hactive := ih child hchild (isRunning_of_undergoAll hruns).1
        refine activeSession_of_befalling hactive hruns ?_
        -- An end that is taken has arrived, and none does of a process that runs.
        intro termination htaken
        have hmem : (⟨child.session, .ended termination⟩ : Event) ∈
            Exchange.taken ((opened setup directory).history (hs ++ [h])) := by
          rw [history_append, Exchange.taken, List.filterMap_append]
          exact List.mem_append_right _ htaken
        have harrived := mem_arrivals_of_mem_taken setup directory _ hmem
        have hquiet := haccount.not_ended hruns _
          (List.mem_filter.2 ⟨harrived, beq_self_eq_true child.session⟩)
        cases hquiet

/--
At most one process runs, and each is killed at most once.  In every run a process that was
launched, has not ended and was not killed is that of the running session; so there is one at most,
and none if nothing was verified or the last verification is finished.  Processes are those that
were launched, and beyond what they do themselves they change only by orders.  A process is killed
at most once, when its session is given up while it runs; it was launched before, and once a later
one is launched it is not killed any more.
-/
theorem one_process_runs (hs : List Happening) :
    let w := (opened setup directory).after hs
    let exchanges := (opened setup directory).history hs
    let orders := exchanges.flatMap Exchange.orders
    (∀ child ∈ w.children, child.isRunning = true →
      w.controller.activeSession = some child.session) ∧
    (w.children.filter Child.isRunning).length ≤ 1 ∧
    ((w.controller.phase = .idle ∨ ∃ v, w.controller.phase = .finished v) →
      ∀ child ∈ w.children, child.isRunning = false) ∧
    (w.children.map Child.session = (orders.filterMap Order.launched?).reverse ∧
      ∀ h, (w.befall h).1.children =
        ((w.exchanges h).flatMap Exchange.orders).foldl Order.carryOut (w.stirred h)) ∧
    (orders.filterMap Order.killed?).Nodup ∧
    (∀ m ∈ exchanges, ∀ n, .kill n ∈ m.orders →
      m.request.givesUp = true ∧ m.before.activeSession = some n) ∧
    ∀ before n after, orders = before ++ .kill n :: after →
      .launch n ∈ before ∧ ∀ n', .launch n' ∈ before → n' ≤ n := by
  intro w exchanges orders
  have hactive : ∀ child ∈ w.children, child.isRunning = true →
      w.controller.activeSession = some child.session :=
    activeSession_of_isRunning setup directory hs
  have hordered : Ordered w.controller orders := (history_history setup directory hs).ordered
  refine ⟨hactive, ?_, ?_, ⟨?_, w.children_of_orders⟩, hordered.killed_nodup, ?_, ?_⟩
  · exact (numbered setup directory hs).length_running_le_one hactive
  · intro hphase child hchild
    have hnone : w.controller.activeSession = none := by
      rcases hphase with hidle | ⟨v, hfinished⟩
      · simp [Controller.activeSession, hidle]
      · simp [Controller.activeSession, hfinished]
    by_contra hrunning
    have hsome := hactive child hchild (by simpa using hrunning)
    rw [hnone] at hsome
    cases hsome
  · rw [Exchange.launched_orders]
    exact sessions_children setup directory hs
  · intro m _ n hn
    rcases Exchange.mem_orders.1 hn with ⟨n', hkilled, heq⟩ | ⟨n', -, heq⟩
    · cases heq
      exact Exchange.killed_eq_some_iff.1 hkilled
    · cases heq
  · intro before n after hsplit
    exact ⟨hordered.launch_before_kill hsplit, fun n' hn' => hordered.le_of_kill hsplit hn'⟩

end Workbench
end VerifierSession
