import VerifierSession.Proofs.Verdict

/-!
# The verdict on the last session

As long as a controller is not shut down, what it shows is how things stand with the session that
was begun last: that it runs, or the verdict on it.

* `Exchange.begins?`: the verification that is begun in an exchange, with its number;
* `Controller.Concluded`: the last verification is the one that is shown, with its verdict;
* `History.concluded`: every history has it if nothing was shut down.
-/

namespace VerifierSession

namespace Exchange

/-- The verification that is begun in an exchange: its session and its file. -/
def begins? (m : Exchange) : Option (Nat × Path) :=
  match m.request with
  | .verify _ path _ => m.begun.map fun n => (n, path)
  | _ => none

/-- The verdict on a session, if one was issued. -/
def verdictOn (n : Nat) (ms : List Exchange) : Option Status :=
  (ms.filterMap issued).lookup n

variable {m : Exchange} {past : List Exchange} {n : Nat}

@[simp] theorem begins?_verify (c : Controller) (s : Surroundings) (path : Path) (flags : Flags) :
    (Exchange.mk c (.verify s path flags)).begins? = some (c.nextSession, path) := by
  have hbegun : (Exchange.mk c (.verify s path flags)).begun = some c.nextSession :=
    begun_of_verify (m := ⟨c, .verify s path flags⟩) rfl
  simp [begins?, hbegun]

theorem begins?_of_not_verify (h : ∀ s path flags, m.request ≠ .verify s path flags) :
    m.begins? = none := by
  unfold begins?
  split
  · next s path flags hrequest => exact absurd hrequest (h s path flags)
  · rfl

theorem verdictOn_append (h : verdictOn n past = none) :
    verdictOn n (past ++ [m]) = verdictOn n [m] := by
  have hbefore : (past.filterMap issued).lookup n = none := h
  rw [verdictOn, List.filterMap_append, List.lookup_append, hbefore, Option.none_or]
  rfl

theorem verdictOn_append_of_issued (h : m.issued = none) :
    verdictOn n (past ++ [m]) = verdictOn n past := by
  simp [verdictOn, h]

theorem verdictOn_singleton {status : Status} (h : m.issued = some (n, status)) :
    verdictOn n [m] = some status := by
  simp [verdictOn, h]

end Exchange

theorem History.verdictOn_nextSession {past : List Exchange} {c : Controller} (h : History past c) :
    Exchange.verdictOn c.nextSession past = none := by
  refine List.lookup_eq_none_iff.2 ?_
  intro verdict hverdict
  have hover := h.issued_nodup.2 verdict hverdict
  have hne : c.nextSession ≠ verdict.1 := Nat.ne_of_gt hover.1
  simpa using hne

namespace Controller

/-- The verification that is running, or the last one: its session and its file. -/
def shown (c : Controller) : Option (Nat × Path) :=
  c.current.map fun v => (v.session, v.path)

/-- The last verification is the one that is shown; once it is over, the status is its verdict. -/
structure Concluded (c : Controller) (past : List Exchange) : Prop where
  last : (past.filterMap Exchange.begins?).getLast? = c.shown
  verdict : ∀ n path, c.shown = some (n, path) →
    Exchange.verdictOn n past = if c.activeSession.isSome then none else some c.status

theorem concluded_new : ({} : Controller).Concluded [] where
  last := rfl
  verdict := by
    intro n path hshown
    cases hshown

/-- A verification that begins is shown; it has a verdict only if it is over at once. -/
theorem concluded_of_begun {c c' : Controller} {past : List Exchange} {r : Request} {path : Path}
    (hfresh : Exchange.verdictOn c.nextSession past = none)
    (hbegins : (Exchange.mk c r).begins? = some (c.nextSession, path))
    (hshown : c'.shown = some (c.nextSession, path))
    (hissued : (Exchange.mk c r).issued =
      if c'.activeSession.isSome then none else some (c.nextSession, c'.status)) :
    c'.Concluded (past ++ [⟨c, r⟩]) where
  last := by
    simp [hbegins, hshown]
  verdict := by
    intro n path' hn
    rw [hshown] at hn
    cases hn
    cases hactive : c'.activeSession.isSome with
    | true =>
        rw [hactive, if_pos rfl] at hissued
        rw [Exchange.verdictOn_append_of_issued hissued, hfresh, if_pos rfl]
    | false =>
        rw [hactive, if_neg Bool.false_ne_true] at hissued
        rw [Exchange.verdictOn_append hfresh, Exchange.verdictOn_singleton hissued,
          if_neg Bool.false_ne_true]

/-- What begins nothing and issues no verdict changes nothing, if the same is shown. -/
theorem Concluded.keep {c c' : Controller} {past : List Exchange} {r : Request}
    (h : c.Concluded past) (hbegins : (Exchange.mk c r).begins? = none)
    (hissued : (Exchange.mk c r).issued = none) (hshown : c'.shown = c.shown)
    (hactive : c'.activeSession.isSome = c.activeSession.isSome) (hstatus : c'.status = c.status) :
    c'.Concluded (past ++ [⟨c, r⟩]) where
  last := by
    simp [hbegins, hshown, h.last]
  verdict := by
    intro n path hn
    rw [Exchange.verdictOn_append_of_issued hissued, hactive, hstatus]
    exact h.verdict n path (hshown ▸ hn)

end Controller

namespace History

variable {past : List Exchange} {m : Exchange} {c : Controller}

theorem concluded_next (hpast : History past m.before) (h : m.before.Concluded past)
    (hrequest : m.request ≠ .shutdown) : m.after.Concluded (past ++ [m]) := by
  obtain ⟨c, r⟩ := m
  have hfresh : Exchange.verdictOn c.nextSession past = none := hpast.verdictOn_nextSession
  -- Where no verification is asked for, none is begun.
  have hquiet : (∀ s path flags, r ≠ .verify s path flags) → (Exchange.mk c r).begins? = none :=
    fun hr => Exchange.begins?_of_not_verify hr
  have hanswer := (Exchange.mk c r).answer
  have hissued : (Exchange.mk c r).issued = c.issued (Exchange.mk c r).after := rfl
  generalize (Exchange.mk c r).after = c', (Exchange.mk c r).calls = calls at hanswer hissued ⊢
  -- A verdict belongs to a status that is set.
  have hsame : c'.indicator = c.indicator → (Exchange.mk c r).issued = none := by
    intro hindicator
    cases hverdict : (Exchange.mk c r).issued with
    | none => rfl
    | some verdict => exact absurd (hissued ▸ hverdict) (Controller.issued_of_same hindicator)
  dsimp only at hanswer
  cases hanswer with
  | failed hprepare =>
      refine Controller.concluded_of_begun hfresh (Exchange.begins?_verify ..) rfl ?_
      rw [hissued]
      simp only [Controller.issued, Controller.status, Indicator.status_set,
        Indicator.revision_set, Controller.current, Option.map_some]
      exact if_pos ⟨by omega, .inr trivial⟩
  | started hprepare =>
      refine Controller.concluded_of_begun hfresh (Exchange.begins?_verify ..) rfl ?_
      rw [hissued]
      simp [Controller.issued, Controller.status, Controller.activeSession]
  | stale hother => exact h.keep (hquiet (by simp)) (hsame rfl) rfl rfl rfl
  | @record v document line hp =>
      refine h.keep (hquiet (by simp)) (hsame rfl) ?_ ?_ rfl
      · simp [Controller.shown, Controller.current, hp]
      · simp [Controller.activeSession, hp]
  | complaint hp => exact h.keep (hquiet (by simp)) (hsame rfl) rfl rfl rfl
  | @ended v document termination hp =>
      have hshown : (c.finish v termination).1.shown = c.shown := by
        simp [Controller.shown, Controller.current, hp]
      refine ⟨?_, ?_⟩
      · rw [hshown, ← h.last]
        simp [hquiet (by simp)]
      · -- The session had no verdict as long as it ran.
        intro n path hn
        rw [c.issued_finish v termination] at hissued
        obtain ⟨rfl, rfl⟩ : v.session = n ∧ v.path = path := by
          simpa [Controller.shown, Controller.current] using hn
        have hnone := h.verdict _ _ (hshown ▸ hn)
        simp only [Controller.activeSession_of_active hp, Option.isSome_some, if_true] at hnone
        rw [Exchange.verdictOn_append hnone, Exchange.verdictOn_singleton hissued]
        simp [Controller.activeSession]
  | stopped => exact absurd rfl hrequest
  | aside haside _ =>
      refine h.keep (hquiet ?_) (hsame rfl) rfl rfl rfl
      rintro s path flags rfl
      cases haside

/-- Where nothing was shut down, the controller is concluded. -/
theorem concluded (h : History past c) (hrequest : ∀ m ∈ past, m.request ≠ .shutdown) :
    c.Concluded past := by
  induction h with
  | start => exact Controller.concluded_new
  | next hpast _ ih =>
      refine hpast.concluded_next (ih fun m hm => hrequest m (List.mem_append_left _ hm)) ?_
      exact hrequest _ (List.mem_append_right _ (List.mem_singleton_self _))

end History
end VerifierSession
