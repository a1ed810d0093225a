import VerifierSession.Proofs.Staleness

/-!
# The processes of a run

Whatever happens in a run, each of its processes is what its own deeds make of it, and what arrives
of its session is what is heard of it.  So it has an account of its own.

* `Workbench.deeds`: what befell the process of a session in a run, and what its readers did;
* `Workbench.undergoAll_deeds`: the processes of a run, and what arrived of them;
* `Workbench.output`: what was written to the pipe for records of a session's process in a run;
* `Workbench.accounted`: the accounts of all processes after a run.
-/

namespace VerifierSession
namespace Workbench

/-! ## Deeds -/

/-- What befell the process of a session in a run. -/
def deeds (w : Workbench) (n : Nat) (hs : List Happening) : List Deed :=
  match hs with
  | [] => []
  | h :: hs =>
      (if n ∈ w.children.map Child.session then w.befalling n h else []) ++
        (w.befall h).1.deeds n hs

theorem deeds_append (w : Workbench) (n : Nat) (hs : List Happening) (h : Happening) :
    w.deeds n (hs ++ [h]) = w.deeds n hs ++
      if n ∈ (w.after hs).children.map Child.session then (w.after hs).befalling n h else [] := by
  induction hs generalizing w with
  | nil => simp [deeds, after]
  | cons h' hs ih => simp [deeds, after, ih]

theorem Numbered.arrivals_filter {w : Workbench} (hw : w.Numbered) (hs : List Happening)
    {child : Child} (hmem : child ∈ w.children) :
    (w.arrivals hs).filter (fun e => e.session == child.session) =
      (child.undergoAll (w.deeds child.session hs)).2 := by
  induction hs generalizing w child with
  | nil => rfl
  | cons h hs ih =>
      have hnext : (child.undergoAll (w.befalling child.session h)).1 ∈
          (w.befall h).1.children := by
        rw [children_befall]
        exact List.mem_append_right _ (List.mem_map.2 ⟨child, hmem, rfl⟩)
      have hlater := ih (hw.befall h) hnext
      rw [Child.undergoAll_session] at hlater
      rw [arrivals, List.filter_append, hw.arriving_filter h hmem, hlater, deeds,
        if_pos (List.mem_map_of_mem hmem), Child.undergoAll_append]

variable (setup : Setup) (directory : Directory)

theorem deeds_of_nextSession_le (hs : List Happening) {n : Nat}
    (hn : ((opened setup directory).after hs).controller.nextSession ≤ n) :
    (opened setup directory).deeds n hs = [] := by
  induction hs using List.reverseRecOn with
  | nil => rfl
  | append_singleton hs h ih =>
      rw [after_append] at hn
      have hbefore := Nat.le_trans (nextSession_le_befall _ h) hn
      have hnone : n ∉ ((opened setup directory).after hs).children.map Child.session := by
        intro hmem
        obtain ⟨child, hchild, rfl⟩ := List.mem_map.1 hmem
        exact Nat.not_lt.2 hbefore ((numbered setup directory hs).children child hchild)
      rw [deeds_append, ih hbefore, if_neg hnone, List.append_nil]

theorem arrivals_lt (hs : List Happening) :
    ∀ e ∈ (opened setup directory).arrivals hs,
      e.session < ((opened setup directory).after hs).controller.nextSession := by
  induction hs using List.reverseRecOn with
  | nil => simp [arrivals]
  | append_singleton hs h ih =>
      intro e he
      rw [arrivals_append] at he
      rw [after_append]
      refine Nat.lt_of_lt_of_le ?_ (nextSession_le_befall _ h)
      rcases List.mem_append.1 he with hold | hnew
      · exact ih e hold
      · exact mem_arriving (numbered setup directory hs) hnew

theorem arrivals_filter_of_nextSession_le (hs : List Happening) {n : Nat}
    (hn : ((opened setup directory).after hs).controller.nextSession ≤ n) :
    ((opened setup directory).arrivals hs).filter (fun e => e.session == n) = [] := by
  apply Event.filter_session_eq_nil
  intro e he hsession
  exact Nat.not_lt.2 hn (hsession ▸ arrivals_lt setup directory hs e he)

/-- The processes of a run are what their deeds make of them, and so is what arrives of them. -/
theorem undergoAll_deeds (hs : List Happening) :
    ∀ child ∈ ((opened setup directory).after hs).children,
      Child.undergoAll { session := child.session }
          ((opened setup directory).deeds child.session hs) =
        (child, ((opened setup directory).arrivals hs).filter
          fun e => e.session == child.session) := by
  induction hs using List.reverseRecOn with
  | nil => simp [opened, after]
  | append_singleton hs h ih =>
      have hw := numbered setup directory hs
      intro child' hmem
      rw [after_append, children_befall] at hmem
      rw [deeds_append, arrivals_append, List.filter_append]
      rcases List.mem_append.1 hmem with hnew | hold
      · -- Nothing befell the new process yet, and nothing arrives of it.
        obtain ⟨rfl, -, -⟩ := session_of_mem_launched hnew
        have hnone : ((opened setup directory).after hs).controller.nextSession ∉
            ((opened setup directory).after hs).children.map Child.session := by
          intro hthere
          obtain ⟨child, hchild, hsession⟩ := List.mem_map.1 hthere
          exact Nat.ne_of_lt (hw.children child hchild) hsession
        have hquiet : (((opened setup directory).after hs).arriving h).filter
            (fun e => e.session == ((opened setup directory).after hs).controller.nextSession) =
              [] := by
          apply Event.filter_session_eq_nil
          intro e he
          exact Nat.ne_of_lt (mem_arriving hw he)
        rw [deeds_of_nextSession_le setup directory hs (Nat.le_refl _), if_neg hnone,
          arrivals_filter_of_nextSession_le setup directory hs (Nat.le_refl _), hquiet]
        rfl
      · obtain ⟨child, hchild, rfl⟩ := List.mem_map.1 hold
        rw [Child.undergoAll_session, if_pos (List.mem_map_of_mem hchild),
          Child.undergoAll_append, ih child hchild, hw.arriving_filter h hchild]

/-! ## Accounts -/

/-- What was written to the pipes of the process of a session in a run. -/
def written (w : Workbench) (n : Nat) (hs : List Happening) : Outlet → Output :=
  Child.wroteAll { session := n } (fun _ => {}) (w.deeds n hs)

/-- What was written to the pipe for records of the process of a session in a run. -/
def output (w : Workbench) (n : Nat) (hs : List Happening) : Output :=
  w.written n hs .records

/-- After a run, the accounts of all processes are in order. -/
theorem accounted (hs : List Happening) {child : Child}
    (hchild : child ∈ ((opened setup directory).after hs).children) :
    child.Account ((opened setup directory).written child.session hs)
      (((opened setup directory).arrivals hs).filter fun e => e.session == child.session) := by
  have haccount := Child.account_undergoAll child.session
    ((opened setup directory).deeds child.session hs)
  rw [undergoAll_deeds setup directory hs child hchild] at haccount
  exact haccount

theorem exists_child_of_mem_arrivals (hs : List Happening) {e : Event}
    (he : e ∈ (opened setup directory).arrivals hs) :
    e.session ∈ ((opened setup directory).after hs).children.map Child.session := by
  induction hs using List.reverseRecOn with
  | nil => cases he
  | append_singleton hs h ih =>
      rw [after_append, sessions_befall]
      rw [arrivals_append] at he
      apply List.mem_append_right
      rcases List.mem_append.1 he with hold | hnew
      · exact ih hold
      · obtain ⟨child, hchild, hsession⟩ := session_of_mem_arriving hnew
        exact hsession ▸ List.mem_map_of_mem hchild

theorem arrivals_pairwise (hs : List Happening) (n : Nat) :
    (((opened setup directory).arrivals hs).filter (fun e => e.session == n)).Pairwise
      fun e _ => e.output.isEnd = false := by
  by_cases hmem : n ∈ ((opened setup directory).after hs).children.map Child.session
  · obtain ⟨child, hchild, rfl⟩ := List.mem_map.1 hmem
    exact (accounted setup directory hs hchild).pairwise
  · have hnone : ((opened setup directory).arrivals hs).filter (fun e => e.session == n) = [] := by
      apply Event.filter_session_eq_nil
      rintro e he rfl
      exact hmem (exists_child_of_mem_arrivals setup directory hs he)
    rw [hnone]
    exact List.Pairwise.nil

theorem mem_arrivals_of_mem_taken (hs : List Happening) {e : Event}
    (he : e ∈ Exchange.taken ((opened setup directory).history hs)) :
    e ∈ (opened setup directory).arrivals hs := by
  rw [← taken_append_queue_opened]
  exact List.mem_append_left _ he

/-! ## The sessions of processes -/

theorem givesUp_of_mem_requests {w : Workbench} {a : Action} {r : Request}
    (hr : r ∈ w.requests a) (hgives : r.givesUp = true) :
    (∃ path flags, a = .verify path flags) ∨ a = .shutdown := by
  have hnone : ∀ es : List Event, r ∈ es.map Request.take → False := by
    intro es hmem
    obtain ⟨e, -, rfl⟩ := List.mem_map.1 hmem
    cases hgives
  cases a with
  | verify path flags => exact .inl ⟨path, flags, rfl⟩
  | shutdown => exact .inr rfl
  | abandon => exact (hnone _ hr).elim
  | poll budget => exact (hnone _ hr).elim
  | drain => exact (hnone _ hr).elim
  | complete => exact (hnone _ hr).elim
  | welcome =>
      rw [List.mem_singleton.1 hr] at hgives
      cases hgives
  | check =>
      rw [List.mem_singleton.1 hr] at hgives
      cases hgives
  | notify level message =>
      rw [List.mem_singleton.1 hr] at hgives
      cases hgives
  | _ => cases hr

theorem activeSession_after {c : Controller} {n : Nat} (hn : c.activeSession = some n)
    {rs : List Request} (hgives : ∀ r ∈ rs, r.givesUp = false)
    (hends : ∀ termination, Request.take ⟨n, .ended termination⟩ ∉ rs) :
    (c.after rs).activeSession = some n := by
  induction rs generalizing c with
  | nil => exact hn
  | cons r rs ih =>
      rcases (c.answer r).activeSession_kept hn (hgives r List.mem_cons_self) with
        hkept | ⟨termination, rfl⟩
      · exact ih hkept (fun r' hr' => hgives r' (List.mem_cons_of_mem _ hr'))
          fun termination hmem => hends termination (List.mem_cons_of_mem _ hmem)
      · exact absurd List.mem_cons_self (hends termination)

theorem launched_started (w : Workbench) (h : Happening) :
    (w.launched h).map Child.session = ((w.exchanges h).filterMap Exchange.started).reverse := by
  have hnone : ∀ (c : Controller) (es : List Event),
      (c.course (es.map .take)).filterMap Exchange.started = [] := by
    intro c es
    induction es generalizing c with
    | nil => rfl
    | cons e es ih => exact ih _
  cases h with
  | deed n d => rfl
  | action a =>
      cases a with
      | verify path flags =>
          simp only [launched, exchanges, requests, Controller.course, List.filterMap_cons,
            List.filterMap_nil, Exchange.started]
          cases (w.controller.verify (w.setup.surroundings w.directory) path flags).result with
          | error failure => rfl
          | ok found => rfl
      | abandon => simp only [exchanges, requests, hnone]; rfl
      | poll budget => simp only [exchanges, requests, hnone]; rfl
      | drain => simp only [exchanges, requests, hnone]; rfl
      | complete => simp only [exchanges, requests, hnone]; rfl
      | _ => rfl

/-- The processes of a bench are those of the sessions that were started, the last one in front. -/
theorem sessions_children (hs : List Happening) :
    ((opened setup directory).after hs).children.map Child.session =
      (((opened setup directory).history hs).filterMap Exchange.started).reverse := by
  induction hs using List.reverseRecOn with
  | nil => rfl
  | append_singleton hs h ih =>
      rw [after_append, history_append, List.filterMap_append, List.reverse_append, ← ih,
        sessions_befall, launched_started]

end Workbench
end VerifierSession
