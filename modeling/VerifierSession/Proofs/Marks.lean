import VerifierSession.Proofs.Verdict

/-!
# The marks on the host

What a host shows is the effect of all calls so far.  It is what the controller stands for: the
findings of a finished verification that have a place, and else nothing.

* `Display.Tidy`: hovers are put up only where there are none, and taken down only where there are;
* `Controller.Answer.marks`: every answer brings the marks to where they should be, and is tidy;
* `Workbench.display_eq_marks`: so are the marks after every exchange of a run.
-/

namespace VerifierSession

def HostCall.isMark : HostCall → Bool
  | .decorate .. => true
  | .clearDecorations => true
  | .hover .. => true
  | .disposeHovers => true
  | _ => false

namespace Display

/-! ## Calls and marks -/

/-- The marks for findings in a document: those with a place, in order, each with its text. -/
def ofFindings (path : Path) (findings : List Diagnostic) : Display :=
  if findings.filterMap Diagnostic.span = [] then {}
  else
    { decorations := some (path, findings.filterMap Diagnostic.span)
      hovers := some (path, findings.filterMap fun d => d.span.map fun span => ⟨span, d.render⟩) }

/-- Whether a call finds the hovers as it should: none to be put up, some to be taken down. -/
def Allows (d : Display) : HostCall → Prop
  | .hover .. => d.hovers.isSome = false
  | .disposeHovers => d.hovers.isSome = true
  | _ => True

/-- Whether each of some calls finds the hovers as it should. -/
def Tidy (d : Display) (calls : List HostCall) : Prop :=
  match calls with
  | [] => True
  | call :: calls => d.Allows call ∧ (d.apply call).Tidy calls

variable {d : Display} {calls : List HostCall}

theorem run_append (d : Display) (calls calls' : List HostCall) :
    d.run (calls ++ calls') = (d.run calls).run calls' :=
  List.foldl_append

theorem tidy_append (d : Display) (calls calls' : List HostCall) :
    d.Tidy (calls ++ calls') ↔ d.Tidy calls ∧ (d.run calls).Tidy calls' := by
  induction calls generalizing d with
  | nil => simp [Tidy, run]
  | cons call calls ih =>
      simp only [List.cons_append, Tidy, ih, and_assoc]
      rfl

theorem apply_of_not_isMark {call : HostCall} (h : call.isMark = false) :
    d.apply call = d ∧ d.Allows call := by
  cases call with
  | decorate _ _ => cases h
  | clearDecorations => cases h
  | hover _ _ => cases h
  | disposeHovers => cases h
  | _ => exact ⟨rfl, trivial⟩

theorem run_of_not_isMark (h : ∀ call ∈ calls, call.isMark = false) :
    d.run calls = d ∧ d.Tidy calls := by
  induction calls with
  | nil => exact ⟨rfl, trivial⟩
  | cons call calls ih =>
      obtain ⟨hsame, hallowed⟩ := d.apply_of_not_isMark (h call List.mem_cons_self)
      obtain ⟨hrun, htidy⟩ := ih fun call' hcall' => h call' (List.mem_cons_of_mem _ hcall')
      refine ⟨?_, hallowed, ?_⟩
      · rw [run, List.foldl_cons, hsame]
        exact hrun
      · rw [hsame]
        exact htidy

theorem isSome_hovers_run (h : d.hovers.isSome = true) (hno : HostCall.disposeHovers ∉ calls) :
    (d.run calls).hovers.isSome = true := by
  induction calls generalizing d with
  | nil => exact h
  | cons call calls ih =>
      rw [List.mem_cons, not_or] at hno
      refine ih ?_ hno.2
      cases call with
      | disposeHovers => exact absurd rfl hno.1
      | hover _ _ => rfl
      | _ => exact h

/-- In tidy calls hovers are taken down before they are put up again. -/
theorem Tidy.disposeHovers_mem {before between after : List HostCall} {path path' : Path}
    {hovers hovers' : List Hover}
    (h : d.Tidy (before ++ .hover path hovers :: between ++ .hover path' hovers' :: after)) :
    HostCall.disposeHovers ∈ between := by
  by_contra hno
  -- The first hovers would still be there when the second ones are put up.
  have hsecond := ((tidy_append _ _ _).1 h).2.1
  simp only [Allows, run_append] at hsecond
  have hstays : (((d.run before).run (.hover path hovers :: between))).hovers.isSome = true :=
    isSome_hovers_run (d := (d.run before).apply (.hover path hovers)) rfl hno
  rw [hsecond] at hstays
  cases hstays

end Display

namespace Controller

/-! ## What the controller stands for -/

/-- The marks that should be shown. -/
def marks (c : Controller) : Display :=
  match c.phase with
  | .finished v => .ofFindings v.path v.record.diagnostics
  | _ => {}

theorem isMark_of_isTold {call : HostCall} (h : call.isTold = true) : call.isMark = false := by
  cases call <;> first | rfl | cases h

theorem isMark_of_mem_prepare {s : Surroundings} {path : Path} {flags : Flags}
    {calls : List HostCall} {result : Except StartFailure (Snapshot × Invocation)}
    (h : prepare s path flags = (calls, result)) : ∀ call ∈ calls, call.isMark = false := by
  unfold prepare at h
  split at h
  · cases h
    simp
  · split at h
    · cases h
      simp [HostCall.isMark]
    · dsimp only at h
      split at h
      · cases h
        simp [HostCall.isMark]
      · cases h
        simp [HostCall.isMark]

theorem isMark_of_mem_failureCalls (location : Option Path) (failure : StartFailure) :
    ∀ call ∈ failureCalls location failure, call.isMark = false := by
  unfold failureCalls configHint
  cases location <;> cases failure.isConfiguration <;> simp [HostCall.isMark]

end Controller

theorem SessionRecord.isMark_of_mem_take (r : SessionRecord) (document : Snapshot) (path : Path)
    (line : String) : ∀ call ∈ (r.take document path line).2, call.isMark = false := by
  unfold take
  split
  · unfold takeDiagnostic
    split
    · unfold takeError
      split
      · simp [HostCall.isMark]
      · simp [HostCall.isMark]
    · simp [HostCall.isMark]
    · simp [HostCall.isMark]
    · simp [HostCall.isMark]
  · unfold takeStream
    split
    · simp [HostCall.isMark, HostCall.broadcast]
    · simp [HostCall.isMark, HostCall.broadcast]
    · simp [HostCall.isMark]
  · simp [HostCall.isMark]

namespace Controller

/-- The marks are taken off, and nothing that is not there. -/
theorem marks_clearing {c : Controller} (hregistered : c.hoversRegistered = c.marks.hovers.isSome) :
    c.marks.run c.clearing = {} ∧ c.marks.Tidy c.clearing := by
  unfold clearing
  cases hc : c.hoversRegistered with
  | true =>
      rw [hc] at hregistered
      exact ⟨rfl, hregistered.symm, trivial, trivial⟩
  | false =>
      rw [hc] at hregistered
      have hnone : c.marks.hovers = none := by simpa using hregistered.symm
      refine ⟨?_, trivial, trivial⟩
      simp [Display.run, Display.apply, hnone]

section Findings

variable (path : Path) (r : SessionRecord)

theorem map_span_hovers : r.hovers.map Hover.span = r.diagnostics.filterMap Diagnostic.span := by
  simp [SessionRecord.hovers, List.map_filterMap, Function.comp_def]

theorem hovers_eq_nil : r.hovers = [] ↔ r.diagnostics.filterMap Diagnostic.span = [] := by
  rw [← map_span_hovers, List.map_eq_nil_iff]

/-- The marks at the end of a verification are those for its findings. -/
theorem marks_annotating :
    ({} : Display).run (annotating path r.hovers) = .ofFindings path r.diagnostics ∧
      ({} : Display).Tidy (annotating path r.hovers) := by
  unfold annotating Display.ofFindings
  by_cases hnone : r.hovers = []
  · rw [if_pos ((hovers_eq_nil r).1 hnone), hnone]
    exact ⟨rfl, trivial⟩
  · rw [if_neg (fun h => hnone ((hovers_eq_nil r).2 h)), if_neg (by simpa using hnone),
      map_span_hovers]
    exact ⟨rfl, trivial, rfl, trivial⟩

theorem isSome_hovers_ofFindings :
    (Display.ofFindings path r.diagnostics).hovers.isSome = !r.hovers.isEmpty := by
  unfold Display.ofFindings
  by_cases hnone : r.hovers = []
  · rw [if_pos ((hovers_eq_nil r).1 hnone), hnone]
    rfl
  · rw [if_neg (fun h => hnone ((hovers_eq_nil r).2 h))]
    simpa using hnone

end Findings

namespace Answer

variable {c c' : Controller} {r : Request} {calls : List HostCall}

/-- Every answer brings the marks to where they should be. -/
theorem marks (h : c.Answer r c' calls)
    (hregistered : c.hoversRegistered = c.marks.hovers.isSome)
    (hrecord : ∀ v document, c.phase = .active v document → v.record.errorsOccurred = false →
      v.record.diagnostics = []) :
    c.marks.run calls = c'.marks ∧ c'.hoversRegistered = c'.marks.hovers.isSome ∧
      c.marks.Tidy calls := by
  obtain ⟨hcleared, htidy⟩ := marks_clearing hregistered
  -- A verification begins with the clearing, and puts no marks up.
  have hstart : ∀ (path : Path) (calls : List HostCall), (∀ call ∈ calls, call.isMark = false) →
      c.marks.run (c.opening path ++ calls) = {} ∧ c.marks.Tidy (c.opening path ++ calls) := by
    intro path calls hcalls
    have hrest : ∀ call ∈ [.clearLog, .log .info ("Starting verification of \"" ++ path.text ++
        "\".")] ++ calls, call.isMark = false := by
      simpa [HostCall.isMark] using hcalls
    obtain ⟨hrun, htidyRest⟩ := Display.run_of_not_isMark (d := {}) hrest
    rw [opening, List.append_assoc, Display.run_append, Display.tidy_append, hcleared]
    exact ⟨hrun, htidy, htidyRest⟩
  cases h with
  | @failed s path flags calls failure hprepare =>
      obtain ⟨hrun, hrest⟩ := hstart path (calls ++ failureCalls s.location failure) (by
        intro call hcall
        rcases List.mem_append.1 hcall with hprepared | hfailure
        · exact isMark_of_mem_prepare hprepare call hprepared
        · exact isMark_of_mem_failureCalls s.location failure call hfailure)
      rw [List.append_assoc]
      exact ⟨hrun, rfl, hrest⟩
  | started hprepare =>
      obtain ⟨hrun, hrest⟩ := hstart _ _ (isMark_of_mem_prepare hprepare)
      exact ⟨hrun, rfl, hrest⟩
  | stale _ => exact ⟨rfl, hregistered, trivial⟩
  | @record v document line hp =>
      have hsame : c.marks = {} := by simp [Controller.marks, hp]
      obtain ⟨hrun, hrest⟩ := Display.run_of_not_isMark (d := c.marks)
        (v.record.isMark_of_mem_take document v.path line)
      refine ⟨?_, ?_, hrest⟩
      · rw [hrun, hsame]
        rfl
      · rw [hregistered, hsame]
        rfl
  | complaint _ => exact ⟨rfl, hregistered, trivial, trivial, trivial⟩
  | @ended v document termination hp =>
      have hsame : c.marks = {} := by simp [Controller.marks, hp]
      have hnone : c.hoversRegistered = false := by
        rw [hregistered, hsame]
        rfl
      -- Without errors there are no findings, so nothing is left out after a success.
      have hhovers : verdictHovers v (verdict v termination).1 = v.record.hovers := by
        unfold verdictHovers
        split
        · rfl
        · next hstatus =>
            have hclean : v.record.errorsOccurred = false := by
              by_contra herrors
              obtain ⟨text, hverdict⟩ :=
                verdict_of_not_clean v termination fun h => herrors h.2
              exact hstatus (by rw [hverdict])
            simp [SessionRecord.hovers, hrecord v document hp hclean]
      obtain ⟨hrun, htidyMarks⟩ := marks_annotating v.path v.record
      have hnotice : ∀ call ∈ HostCall.broadcast (verdict v termination).2.1
          (verdict v termination).2.2, call.isMark = false := by
        simp [HostCall.broadcast, HostCall.isMark]
      obtain ⟨htold, htidyTold⟩ := Display.run_of_not_isMark
        (d := .ofFindings v.path v.record.diagnostics) hnotice
      have hmarks : (c.finish v termination).1.marks =
          .ofFindings v.path v.record.diagnostics := rfl
      have hcalls : (c.finish v termination).2 = annotating v.path v.record.hovers ++
          HostCall.broadcast (verdict v termination).2.1 (verdict v termination).2.2 := by
        rw [← hhovers]
        rfl
      rw [hcalls, hmarks, hsame, Display.run_append, Display.tidy_append, hrun]
      refine ⟨htold, ?_, htidyMarks, htidyTold⟩
      rw [isSome_hovers_ofFindings, ← hhovers]
      simp [finish, hnone]
  | stopped => exact ⟨hcleared, rfl, htidy⟩
  | aside _ htold =>
      obtain ⟨hrun, hrest⟩ := Display.run_of_not_isMark (d := c.marks)
        fun call hcall => isMark_of_isTold (htold call hcall)
      exact ⟨hrun, hregistered, hrest⟩

end Answer
end Controller

/-! ## The marks after every exchange -/

theorem History.marks {past : List Exchange} {c : Controller} (h : History past c) :
    Display.run {} (past.flatMap Exchange.calls) = c.marks ∧
      c.hoversRegistered = c.marks.hovers.isSome ∧
      Display.Tidy {} (past.flatMap Exchange.calls) := by
  induction h with
  | start => exact ⟨rfl, rfl, trivial⟩
  | @next past m hpast _ ih =>
      obtain ⟨hrun, hregistered, htidy⟩ := ih
      have hrecord : ∀ v document, m.before.phase = .active v document →
          v.record.errorsOccurred = false → v.record.diagnostics = [] := by
        intro v document hp hclean
        have hgathered := hpast.gathered_of_active hp
        rw [hgathered, SessionRecord.errorsOccurred_gather] at hclean
        rw [hgathered, SessionRecord.diagnostics_gather _ _ hclean]
      obtain ⟨hafter, hregisteredAfter, htidyAfter⟩ := m.answer.marks hregistered hrecord
      rw [List.flatMap_append, Display.run_append, Display.tidy_append, hrun]
      simp only [List.flatMap_cons, List.flatMap_nil, List.append_nil]
      exact ⟨hafter, hregisteredAfter, htidy, htidyAfter⟩

namespace Workbench

/--
What the host shows.  In every run, after every request and every event that is taken, and so after
every action, the marks are those for the findings of the verification if it is finished, and there
are none if nothing was verified or a verification is running; hovers count as registered exactly
if some are shown.  Hovers are only taken down where there are some, and between two times that
they are put up they are taken down.
-/
theorem display_eq_marks (setup : Setup) (directory : Directory) (hs : List Happening) :
    let w := opened setup directory
    (∀ past m later, w.history hs = past ++ m :: later →
      let shown := Display.run {} ((past ++ [m]).flatMap Exchange.calls)
      shown = m.after.marks ∧ m.after.hoversRegistered = shown.hovers.isSome) ∧
    (Display.run {} (w.calls hs) = (w.after hs).controller.marks ∧
      (w.after hs).controller.hoversRegistered = (Display.run {} (w.calls hs)).hovers.isSome) ∧
    (∀ before after, w.calls hs = before ++ .disposeHovers :: after →
      (Display.run {} before).hovers.isSome = true) ∧
    ∀ before between after path path' hovers hovers',
      w.calls hs =
        before ++ .hover path hovers :: between ++ .hover path' hovers' :: after →
      HostCall.disposeHovers ∈ between := by
  intro w
  have hhistory := history_history setup directory hs
  have htidy : Display.Tidy {} (w.calls hs) := by
    rw [calls_eq]
    exact hhistory.marks.2.2
  refine ⟨?_, ?_, ?_, ?_⟩
  · intro past m later hsplit shown
    have hall : History (past ++ m :: later) (w.after hs).controller := hsplit ▸ hhistory
    obtain ⟨hrun, hregistered, -⟩ := (History.next hall.split.1 hall.split.2).marks
    exact ⟨hrun, by rw [hregistered, ← hrun]⟩
  · obtain ⟨hrun, hregistered, -⟩ := hhistory.marks
    rw [← calls_eq] at hrun
    exact ⟨hrun, by rw [hregistered, ← hrun]⟩
  · intro before after hsplit
    rw [hsplit] at htidy
    exact ((Display.tidy_append _ _ _).1 htidy).2.1
  · intro before between after path path' hovers hovers' hsplit
    rw [hsplit] at htidy
    exact htidy.disposeHovers_mem

end Workbench
end VerifierSession
