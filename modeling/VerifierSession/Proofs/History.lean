import VerifierSession.Proofs.Request

/-!
# Histories of a controller

A request and the controller it comes to are an `Exchange`; the exchanges from the beginning up to
a controller are a `History` of it.  Whatever the order of requests was, an event in a history is of
a session that was begun before.

* `History.split` and `History.kept` go from a history to the exchanges in it, and from an exchange
  to everything that came later;
* sessions are numbered as they are begun (`History.nextSession_le`), and one that is over stays
  over (`History.over_kept`).
-/

namespace VerifierSession

/-! ## What an answer does to the numbers of sessions -/

namespace Controller

/-- A session is over: it was begun, and it is not running. -/
def Over (c : Controller) (n : Nat) : Prop :=
  n < c.nextSession ∧ c.activeSession ≠ some n

@[simp] theorem finish_phase (c : Controller) (v : Verification) (termination : Termination) :
    (c.finish v termination).1.phase = .finished v := rfl

@[simp] theorem finish_status (c : Controller) (v : Verification) (termination : Termination) :
    (c.finish v termination).1.status = (verdict v termination).1 :=
  c.indicator.status_set _

namespace Answer

variable {c c' : Controller} {r : Request} {calls : List HostCall} {n : Nat}

theorem nextSession_le (h : c.Answer r c' calls) : c.nextSession ≤ c'.nextSession := by
  cases h with
  | failed _ => exact Nat.le_succ _
  | started _ => exact Nat.le_succ _
  | stale _ => exact Nat.le_refl _
  | record _ => exact Nat.le_refl _
  | complaint _ => exact Nat.le_refl _
  | ended _ => exact Nat.le_refl _
  | stopped => exact Nat.le_refl _
  | aside _ _ => exact Nat.le_refl _

/-- A session that runs after an answer ran before, or it is the next one. -/
theorem activeSession_cases (h : c.Answer r c' calls) (hn : c'.activeSession = some n) :
    c.activeSession = some n ∨ n = c.nextSession := by
  cases h with
  | failed _ => cases hn
  | started _ =>
      right
      exact (Option.some.inj hn).symm
  | stale _ => exact .inl hn
  | record hp =>
      left
      rw [activeSession_of_active hp]
      exact hn
  | complaint _ => exact .inl hn
  | ended _ => cases hn
  | stopped => cases hn
  | aside _ _ => exact .inl hn

/-- The verification that is shown after an answer is the next one, or was shown before. -/
theorem current_cases (h : c.Answer r c' calls) {v' : Verification} (hv : c'.current = some v') :
    (v'.session = c.nextSession ∧ c'.nextSession = c.nextSession + 1) ∨
      ∃ v, c.current = some v ∧ v.session = v'.session := by
  cases h with
  | failed _ =>
      cases hv
      exact .inl ⟨rfl, rfl⟩
  | started _ =>
      cases hv
      exact .inl ⟨rfl, rfl⟩
  | stale _ => exact .inr ⟨v', hv, rfl⟩
  | @record v document line hp =>
      cases hv
      exact .inr ⟨v, by simp [current, hp], rfl⟩
  | complaint _ => exact .inr ⟨v', hv, rfl⟩
  | ended hp =>
      cases hv
      exact .inr ⟨v', by simp [current, hp], rfl⟩
  | stopped => cases hv
  | aside _ _ => exact .inr ⟨v', hv, rfl⟩

theorem over_of_givesUp (h : c.Answer r c' calls) (hr : r.givesUp = true)
    (hn : n < c.nextSession) : c'.Over n := by
  refine ⟨Nat.lt_of_lt_of_le hn h.nextSession_le, ?_⟩
  cases h with
  | failed _ => simp [activeSession]
  | started _ =>
      intro hactive
      cases hactive
      exact Nat.lt_irrefl _ hn
  | stopped => simp [activeSession]
  | @aside r calls haside _ => cases r <;> simp_all [Request.givesUp, Request.isAside]
  | _ => cases hr

theorem activeSession_kept (h : c.Answer r c' calls) (hn : c.activeSession = some n)
    (hr : r.givesUp = false) :
    c'.activeSession = some n ∨ ∃ termination, r = .take ⟨n, .ended termination⟩ := by
  cases h with
  | failed _ => cases hr
  | started _ => cases hr
  | stale _ => exact .inl hn
  | record hp =>
      left
      rw [← hn, activeSession_of_active hp]
      rfl
  | complaint _ => exact .inl hn
  | @ended v document termination hp =>
      rw [activeSession_of_active hp] at hn
      cases hn
      exact .inr ⟨termination, rfl⟩
  | stopped => cases hr
  | aside _ _ => exact .inl hn

theorem activeSession_of_not_givesUp (h : c.Answer r c' calls) (hr : r.givesUp = false)
    (hn : c'.activeSession = some n) : c.activeSession = some n := by
  cases h with
  | failed _ => cases hr
  | started _ => cases hr
  | stale _ => exact hn
  | record hp =>
      rw [activeSession_of_active hp]
      exact hn
  | complaint _ => exact hn
  | ended _ => cases hn
  | stopped => cases hr
  | aside _ _ => exact hn

theorem over_kept (h : c.Answer r c' calls) (hn : c.Over n) : c'.Over n := by
  refine ⟨Nat.lt_of_lt_of_le hn.1 h.nextSession_le, ?_⟩
  intro hactive
  rcases h.activeSession_cases hactive with hbefore | hnext
  · exact hn.2 hbefore
  · exact Nat.lt_irrefl _ (hnext ▸ hn.1)

end Answer
end Controller

/-! ## Exchanges -/

/-- A request, and the controller that it comes to. -/
structure Exchange where
  before : Controller
  request : Request

namespace Exchange

def after (m : Exchange) : Controller :=
  (m.before.respond m.request).1

def calls (m : Exchange) : List HostCall :=
  (m.before.respond m.request).2

theorem answer (m : Exchange) : m.before.Answer m.request m.after m.calls :=
  m.before.answer m.request

/-- An event is in time if its session was begun before. -/
def InTime (m : Exchange) : Prop :=
  ∀ e, m.request = .take e → e.session < m.before.nextSession

end Exchange

def Controller.course (c : Controller) (rs : List Request) : List Exchange :=
  match rs with
  | [] => []
  | r :: rs => ⟨c, r⟩ :: (c.respond r).1.course rs

/-! ## Histories -/

/-- The exchanges from the beginning up to a controller. -/
inductive History : List Exchange → Controller → Prop where
  | start : History [] {}
  | next {past : List Exchange} {m : Exchange} :
      History past m.before → m.InTime → History (past ++ [m]) m.after

namespace History

variable {past later : List Exchange} {m : Exchange} {c : Controller}

theorem course {rs : List Request} (h : History past c)
    (htime : ∀ m ∈ c.course rs, m.InTime) : History (past ++ c.course rs) (c.after rs) := by
  induction rs generalizing past c with
  | nil =>
      simp only [Controller.course, List.append_nil]
      exact h
  | cons r rs ih =>
      have hnext : History (past ++ [⟨c, r⟩]) (c.respond r).1 :=
        .next (m := ⟨c, r⟩) h (htime ⟨c, r⟩ (by simp [Controller.course]))
      have hrest := ih hnext (by
        intro m hm
        exact htime m (by simp [Controller.course, hm]))
      simpa [Controller.course, Controller.after] using hrest

/-- Every exchange of a history has a history of its own. -/
theorem split (h : History (past ++ m :: later) c) : History past m.before ∧ m.InTime := by
  generalize hall : past ++ m :: later = all at h
  induction h generalizing later with
  | start => simp at hall
  | @next past' m' hpast htime ih =>
      -- Either `m` is the last exchange, or it lies in the history before the last one.
      rcases List.eq_nil_or_concat later with rfl | ⟨later', m'', rfl⟩
      · obtain ⟨rfl, hm⟩ := List.append_inj' hall rfl
        cases hm
        exact ⟨hpast, htime⟩
      · have hall' : (past ++ m :: later') ++ [m''] = past' ++ [m'] := by simpa using hall
        obtain ⟨hpre, -⟩ := List.append_inj' hall' rfl
        exact ih hpre

/-- What holds of a controller and is kept by every exchange in time holds ever after. -/
theorem kept {P : Controller → Prop}
    (hkeep : ∀ m : Exchange, m.InTime → P m.before → P m.after)
    (h : History (past ++ m :: later) c) (hm : P m.after) :
    P c ∧ ∀ m' ∈ later, P m'.before := by
  generalize hall : past ++ m :: later = all at h
  induction h generalizing later with
  | start => simp at hall
  | @next past' m' hpast htime ih =>
      -- At the last exchange the property holds by assumption; further on it is kept step by step.
      rcases List.eq_nil_or_concat later with rfl | ⟨later', m'', rfl⟩
      · obtain ⟨-, hm'⟩ := List.append_inj' hall rfl
        cases hm'
        exact ⟨hm, by simp⟩
      · have hall' : (past ++ m :: later') ++ [m''] = past' ++ [m'] := by simpa using hall
        obtain ⟨hpre, hlast⟩ := List.append_inj' hall' rfl
        cases hlast
        obtain ⟨hP, hlater⟩ := ih hpre
        refine ⟨hkeep _ htime hP, ?_⟩
        intro m₂ hm₂
        rw [List.concat_eq_append] at hm₂
        rcases List.mem_append.1 hm₂ with hold | hnew
        · exact hlater m₂ hold
        · rw [List.mem_singleton.1 hnew]
          exact hP

/-! ## Sessions are numbered as they are begun -/

theorem nextSession_le (h : History (past ++ m :: later) c) :
    ∀ m' ∈ later, m.after.nextSession ≤ m'.before.nextSession :=
  (h.kept (P := fun c' => m.after.nextSession ≤ c'.nextSession)
    (fun m' _ hm' => Nat.le_trans hm' m'.answer.nextSession_le) (Nat.le_refl _)).2

theorem over_kept {n : Nat} (h : History (past ++ m :: later) c) (hn : m.after.Over n) :
    c.Over n ∧ ∀ m' ∈ later, m'.before.Over n :=
  h.kept (P := fun c' => c'.Over n) (fun m' _ hm' => m'.answer.over_kept hm') hn

theorem session_lt (h : History past c) {v : Verification} (hv : c.current = some v) :
    v.session < c.nextSession := by
  induction h generalizing v with
  | start => cases hv
  | @next past m _ _ ih =>
      rcases m.answer.current_cases hv with ⟨hsession, hnext⟩ | ⟨v', hv', hsession⟩
      · -- A new verification took the number that was next.
        rw [hsession, hnext]
        exact Nat.lt_succ_self _
      · have hle := m.answer.nextSession_le
        have hlt := ih hv'
        omega

theorem taken_lt (h : History past c) {m : Exchange} {e : Event} (hm : m ∈ past)
    (he : m.request = .take e) : e.session < c.nextSession := by
  induction h with
  | start => cases hm
  | @next past m' _ htime ih =>
      have hle := m'.answer.nextSession_le
      rcases List.mem_append.1 hm with hold | hnew
      · exact Nat.lt_of_lt_of_le (ih hold) hle
      · rw [List.mem_singleton.1 hnew] at he
        exact Nat.lt_of_lt_of_le (htime e he) hle

end History
end VerifierSession
