import VerifierSession.Proofs.Pipes
import VerifierSession.Supervision.Child

/-!
# What is heard of a process

What is written to the pipes of a process, and what is heard of it, fit together after whatever may
befall it, in any order (`Child.Account`): each pipe is in step with what was written to it, and the
end is heard of last, once both readers are done.
-/

namespace VerifierSession

/-- The record that is heard of, if it is one. -/
def ProcessOutput.record? : ProcessOutput → Option String
  | .record line => some line
  | _ => none

def Event.records (es : List Event) : List String :=
  es.filterMap fun e => e.output.record?

theorem Event.filter_session_eq_nil {es : List Event} {n : Nat} (h : ∀ e ∈ es, e.session ≠ n) :
    es.filter (fun e => e.session == n) = [] := by
  rw [List.filter_eq_nil_iff]
  intro e he hsession
  exact h e he (by simpa using hsession)

/-- What is followed by something only if it is no end, is not followed if it is one. -/
theorem Event.eq_nil_of_isEnd {e : Event} {es : List Event}
    (h : ∀ e' ∈ es, e.output.isEnd = false) (hend : e.output.isEnd = true) : es = [] := by
  refine List.eq_nil_iff_forall_not_mem.2 ?_
  intro e' he'
  have hquiet := h e' he'
  rw [hend] at hquiet
  cases hquiet

/-- What is heard by way of a pipe, among events. -/
def Event.through (o : Outlet) (es : List Event) : List ProcessOutput :=
  (es.map Event.output).filter fun output => output.outlet? == some o

theorem Event.through_append (o : Outlet) (es es' : List Event) :
    through o (es ++ es') = through o es ++ through o es' := by
  simp [through]

namespace Child

variable {c : Child}

/-- What comes by way of a pipe is all heard by way of it, and nothing by way of the other one. -/
theorem through_map_event (c : Child) {o : Outlet} {outputs : List ProcessOutput}
    (h : ∀ output ∈ outputs, output.outlet? = some o) (o' : Outlet) :
    Event.through o' (outputs.map c.event) = if o = o' then outputs else [] := by
  have hsame : (outputs.map c.event).map Event.output = outputs := by
    simp [event, Function.comp_def]
  rw [Event.through, hsame]
  split
  · next heq =>
      refine List.filter_eq_self.2 ?_
      intro output hmem
      simp [h output hmem, heq]
  · next hne =>
      refine List.filter_eq_nil_iff.2 ?_
      intro output hmem
      simp [h output hmem, hne]

/--
The account of a process: how what was written to its pipes and what was heard of it fit together.
The end is heard of last, once both readers are done.
-/
structure Account (c : Child) (out : Outlet → Output) (es : List Event) : Prop where
  session : ∀ e ∈ es, e.session = c.session
  pipes : ∀ o, (c.pipe o).InStep o c.isRunning (out o) (Event.through o es)
  of_untold : c.told = false → ∀ e ∈ es, e.output.isEnd = false
  of_told : c.told = true →
    (∀ o, (c.pipe o).closed = true) ∧ ∃ termination body, c.ending = some termination ∧
      es = body ++ [c.event (.ended termination)] ∧ ∀ e ∈ body, e.output.isEnd = false

theorem account_new (n : Nat) : ({ session := n } : Child).Account (fun _ => {}) [] where
  session := by simp
  pipes := by
    intro o
    cases o with
    | records => exact Pipe.recorded_new
    | complaints => exact Pipe.complained_new
  of_untold := by simp
  of_told := by simp

/-- What was written to a pipe of a process after a deed. -/
def wrote (c : Child) (out : Outlet → Output) (d : Deed) (o : Outlet) : Output :=
  match d with
  | .on o' s => if o' = o then (out o).extend (c.pipe o) o c.isRunning s else out o
  | _ => out o

theorem pipe_withPipe_of_ne (c : Child) {o o' : Outlet} (h : o ≠ o') (p : Pipe) :
    (c.withPipe o p).pipe o' = c.pipe o' := by
  cases o <;> cases o' <;> first | rfl | exact absurd rfl h

@[simp] theorem withPipe_isRunning (c : Child) (o : Outlet) (p : Pipe) :
    (c.withPipe o p).isRunning = c.isRunning := by
  simp [isRunning]

namespace Account

variable {out : Outlet → Output} {es : List Event}

theorem on (h : c.Account out es) (o : Outlet) (s : Pipe.Step) :
    (c.undergo (.on o s)).1.Account (c.wrote out (.on o s)) (es ++ (c.undergo (.on o s)).2) where
  session := by
    intro e he
    rcases List.mem_append.1 he with hold | hnew
    · simpa [Child.undergo] using h.session e hold
    · obtain ⟨output, -, rfl⟩ := List.mem_map.1 hnew
      simp [Child.undergo, event]
  pipes := by
    intro o'
    have hthrough := c.through_map_event ((h.pipes o).outlet?_step s) o'
    simp only [Child.undergo, wrote, Event.through_append, hthrough, withPipe_isRunning]
    split
    · next heq =>
        subst heq
        rw [pipe_withPipe]
        exact (h.pipes o).step s
    · next hne =>
        rw [pipe_withPipe_of_ne c hne, List.append_nil]
        exact h.pipes o'
  of_untold := by
    intro huntold e he
    rcases List.mem_append.1 he with hold | hnew
    · exact h.of_untold (by simpa [Child.undergo] using huntold) e hold
    · obtain ⟨output, hmem, rfl⟩ := List.mem_map.1 hnew
      exact ProcessOutput.isEnd_of_outlet? ((h.pipes o).outlet?_step s output hmem)
  of_told := by
    intro htold
    -- Both readers were done before the end was told, and are not heard any more.
    obtain ⟨hclosed, termination, body, hending, hes, hbody⟩ :=
      h.of_told (by simpa [Child.undergo] using htold)
    obtain ⟨hquiet, hstays⟩ := (h.pipes o).step_of_closed (hclosed o) s
    refine ⟨?_, termination, body, ?_, ?_, hbody⟩
    · intro o'
      simp only [Child.undergo]
      by_cases heq : o = o'
      · subst heq
        rw [pipe_withPipe]
        exact hstays
      · rw [pipe_withPipe_of_ne c heq]
        exact hclosed o'
    · simpa [Child.undergo] using hending
    · simp [Child.undergo, hquiet, hes, event]

theorem untold_of_isRunning (h : c.Account out es) (hruns : c.isRunning = true) :
    c.told = false := by
  cases htold : c.told with
  | false => rfl
  | true =>
      obtain ⟨-, termination, -, hending, -⟩ := h.of_told htold
      simp [isRunning, hending] at hruns

theorem finish (h : c.Account out es) (termination : Termination) :
    (c.finish termination).Account out es := by
  unfold Child.finish
  split
  · next hrun =>
      have huntold := h.untold_of_isRunning hrun
      refine ⟨h.session, ?_, h.of_untold, ?_⟩
      · intro o
        have hpipe := h.pipes o
        rw [hrun] at hpipe
        cases o with
        | records => exact hpipe.finish
        | complaints => exact hpipe.finish
      · intro htold
        exact absurd htold (by simp [huntold])
  · exact h

theorem tell (h : c.Account out es) : c.tell.1.Account out (es ++ c.tell.2) := by
  unfold Child.tell
  split
  · next termination hending =>
      split
      · next hdone =>
          obtain ⟨⟨hrecords, hcomplaints⟩, huntold⟩ :
              (c.records.closed = true ∧ c.complaints.closed = true) ∧ c.told = false := by
            simpa [canTell] using hdone
          refine ⟨?_, ?_, by simp, ?_⟩
          · intro e he
            rcases List.mem_append.1 he with hold | hnew
            · exact h.session e hold
            · rw [List.mem_singleton.1 hnew]
              rfl
          · -- An end is not heard by way of a pipe.
            intro o
            have hend : Event.through o [c.event (.ended termination)] = [] := rfl
            rw [Event.through_append, hend, List.append_nil]
            cases o with
            | records => exact h.pipes .records
            | complaints => exact h.pipes .complaints
          · intro _
            refine ⟨?_, termination, es, hending, rfl, h.of_untold huntold⟩
            intro o
            cases o with
            | records => exact hrecords
            | complaints => exact hcomplaints
      · simpa using h
  · simpa using h

theorem undergo (h : c.Account out es) (d : Deed) :
    (c.undergo d).1.Account (c.wrote out d) (es ++ (c.undergo d).2) := by
  cases d with
  | on o s => exact h.on o s
  | finish termination =>
      simp only [Child.undergo, List.append_nil]
      exact h.finish termination
  | tell => exact h.tell

theorem map_record_records (es : List Event) :
    (Event.records es).map .record = Event.through .records es := by
  induction es with
  | nil => rfl
  | cons e es ih =>
      obtain ⟨session, output⟩ := e
      cases output with
      | record line => exact congrArg (ProcessOutput.record line :: ·) ih
      | _ => exact ih

theorem records_eq_of_through {es : List Event} {lines : List String}
    (h : Event.through .records es = lines.map .record) : Event.records es = lines := by
  rw [← map_record_records] at h
  exact (List.map_inj_right fun _ _ heq => ProcessOutput.record.inj heq).1 h

theorem records_of_closed (h : c.Account out es) (hclosed : c.records.closed = true) :
    Event.records es = (out .records).delivered :=
  records_eq_of_through (Pipe.Recorded.done (h.pipes .records) hclosed).2

/-- A process whose end was heard of has ended so, and what was delivered was heard of before. -/
theorem ended (h : c.Account out es) (htold : c.told = true) :
    ∃ termination body, c.ending = some termination ∧
      es = body ++ [c.event (.ended termination)] ∧ (∀ e ∈ body, e.output.isEnd = false) ∧
        Event.records body = (out .records).delivered := by
  obtain ⟨hclosed, termination, body, hending, hes, hbody⟩ := h.of_told htold
  refine ⟨termination, body, hending, hes, hbody, ?_⟩
  have hrecords := h.records_of_closed (hclosed .records)
  rw [hes] at hrecords
  simpa [Event.records, event, ProcessOutput.record?] using hrecords

theorem not_ended (h : c.Account out es) (hruns : c.isRunning = true) :
    ∀ e ∈ es, e.output.isEnd = false :=
  h.of_untold (h.untold_of_isRunning hruns)

theorem pairwise (h : c.Account out es) : es.Pairwise fun e _ => e.output.isEnd = false := by
  cases htold : c.told with
  | false =>
      have hquiet := h.of_untold htold
      exact List.pairwise_iff_forall_sublist.2 fun hsub => hquiet _ (hsub.subset (by simp))
  | true =>
      obtain ⟨termination, body, -, rfl, hquiet, -⟩ := h.ended htold
      refine List.pairwise_append.2 ⟨?_, List.pairwise_singleton _ _, fun e he _ _ => hquiet e he⟩
      exact List.pairwise_iff_forall_sublist.2 fun hsub => hquiet _ (hsub.subset (by simp))

end Account

/-! ## Many deeds -/

theorem undergoAll_append (c : Child) (ds ds' : List Deed) :
    c.undergoAll (ds ++ ds') =
      (((c.undergoAll ds).1.undergoAll ds').1,
        (c.undergoAll ds).2 ++ ((c.undergoAll ds).1.undergoAll ds').2) := by
  -- The second list of deeds befalls what the first one leaves, so the process varies.
  induction ds generalizing c with
  | nil => rfl
  | cons d ds ih => simp only [List.cons_append, undergoAll, ih, List.append_assoc]

@[simp] theorem undergo_session (c : Child) (d : Deed) : (c.undergo d).1.session = c.session := by
  cases d with
  | on o s => simp [undergo]
  | finish termination =>
      simp only [undergo, finish]
      split <;> rfl
  | tell =>
      simp only [undergo, tell]
      split
      · split <;> rfl
      · rfl

@[simp] theorem undergoAll_session (c : Child) (ds : List Deed) :
    (c.undergoAll ds).1.session = c.session := by
  induction ds generalizing c with
  | nil => rfl
  | cons d ds ih => exact (ih _).trans (c.undergo_session d)

theorem session_of_mem_undergo {c : Child} {d : Deed} {e : Event} (he : e ∈ (c.undergo d).2) :
    e.session = c.session := by
  cases d with
  | on o s =>
      obtain ⟨output, -, rfl⟩ := List.mem_map.1 he
      rfl
  | finish termination => cases he
  | tell =>
      simp only [undergo, tell] at he
      split at he
      · split at he
        · rw [List.mem_singleton.1 he]
          rfl
        · cases he
      · cases he

theorem length_undergo_le (c : Child) (d : Deed) : (c.undergo d).2.length ≤ 1 := by
  cases d with
  | on o s =>
      cases s with
      | send => cases hpending : (c.pipe o).pending <;> simp [undergo, Pipe.step, hpending]
      | _ => exact Nat.zero_le _
  | finish termination => exact Nat.zero_le _
  | tell =>
      simp only [undergo, tell]
      split
      · split
        · exact Nat.le_refl _
        · exact Nat.zero_le _
      · exact Nat.zero_le _

theorem session_of_mem_undergoAll {c : Child} {ds : List Deed} {e : Event}
    (he : e ∈ (c.undergoAll ds).2) : e.session = c.session := by
  induction ds generalizing c with
  | nil => cases he
  | cons d ds ih =>
      rcases List.mem_append.1 he with hfirst | hlater
      · exact session_of_mem_undergo hfirst
      · exact (ih hlater).trans (c.undergo_session d)

/-- What was written to the pipes of a process after deeds. -/
def wroteAll (c : Child) (out : Outlet → Output) (ds : List Deed) : Outlet → Output :=
  match ds with
  | [] => out
  | d :: ds => (c.undergo d).1.wroteAll (c.wrote out d) ds

theorem Account.undergoAll {out : Outlet → Output} {es : List Event} (h : c.Account out es)
    (ds : List Deed) :
    (c.undergoAll ds).1.Account (c.wroteAll out ds) (es ++ (c.undergoAll ds).2) := by
  induction ds generalizing c out es with
  | nil => simpa [Child.undergoAll, wroteAll] using h
  | cons d ds ih => simpa [Child.undergoAll, wroteAll] using ih (h.undergo d)

theorem account_undergoAll (n : Nat) (ds : List Deed) :
    (undergoAll { session := n } ds).1.Account (wroteAll { session := n } (fun _ => {}) ds)
      (undergoAll { session := n } ds).2 :=
  (account_new n).undergoAll ds

end Child

end VerifierSession
