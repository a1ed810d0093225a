import VerifierSession.Proofs.Staleness

/-!
# What a session has gathered

The record of a session is made line by line from the records that were taken of it while it ran,
whatever else was asked for in between.

* `SessionRecord.gather` takes lines one after the other, beginning with nothing;
* `SessionRecord.take_fst`, `SessionRecord.gather_eq`: what a line adds, and what lines add up to;
* `History.gathered`: the record that is shown is gathered from the lines that were taken, with the
  document that was opened for it.
-/

namespace VerifierSession

/-! ## What a line adds -/

namespace Wire

/-- Whether a line of output rules success out: an error, or a fatal message about the run. -/
def condemns (line : String) : Bool :=
  match decode line with
  | .ok (.diagnostic d) => d.severity == .error
  | .ok (.stream cls _ _) => cls == .fatal
  | .error _ => false

/-- The finding that a line of output tells of, if it is an error. -/
def error? (line : String) : Option Diagnostic :=
  match decode line with
  | .ok (.diagnostic d) => if d.severity = .error then some d else none
  | _ => none

/-- Whether a line of output is a warning: as a finding, or as a message about the run. -/
def warns (line : String) : Bool :=
  match decode line with
  | .ok (.diagnostic d) => d.severity == .warning
  | .ok (.stream cls _ _) => cls == .warning
  | .error _ => false

theorem error?_of_not_condemns {line : String} (h : condemns line = false) :
    error? line = none := by
  unfold condemns at h
  unfold error?
  cases hdecode : decode line with
  | error m => rfl
  | ok report =>
      cases report with
      | diagnostic d => simpa [hdecode] using h
      | stream cls name description => rfl

end Wire

/-- Where an attribute says that something belongs in a document, if it says so. -/
def Attribute.place? (document : Snapshot) : Attribute → Option (Except InvalidRange Span)
  | .positioned left right _ => some (document.span left right)
  | .word offset => some (document.wordSpanAt offset)
  | _ => none

namespace Diagnostic

/--
A finding with its place in a document: the first attribute with a position tells it.  It has none
if there is no such attribute, or if the range is invalid.
-/
def placed (document : Snapshot) (d : Diagnostic) : Diagnostic :=
  { d with span := (d.attributes.findSome? (Attribute.place? document)).bind Except.toOption }

theorem toOption_anchorOf (document : Snapshot) (attributes : List Attribute) :
    (anchorOf document attributes).toOption.join =
      (attributes.findSome? (Attribute.place? document)).bind Except.toOption := by
  induction attributes with
  | nil => rfl
  | cons first rest ih =>
      cases first with
      | positioned left right title =>
          simp only [anchorOf, List.findSome?_cons, Attribute.place?, Option.bind_some]
          cases document.span left right <;> rfl
      | word offset =>
          simp only [anchorOf, List.findSome?_cons, Attribute.place?, Option.bind_some]
          cases document.wordSpanAt offset <;> rfl
      | title title => exact ih
      | quantifiers count => exact ih
      | rule name => exact ih

end Diagnostic

namespace SessionRecord

def gather (document : Snapshot) (path : Path) (lines : List String) : SessionRecord :=
  lines.foldl (fun r line => (r.take document path line).1) {}

theorem gather_append (document : Snapshot) (path : Path) (lines : List String) (line : String) :
    gather document path (lines ++ [line]) =
      ((gather document path lines).take document path line).1 := by
  simp [gather]

section Take

variable (r : SessionRecord) (document : Snapshot) (path : Path)

theorem takeError_fst (d : Diagnostic) :
    (r.takeError document path d).1 = r.keep (d.placed document) := by
  have hplace := Diagnostic.toOption_anchorOf document d.attributes
  unfold takeError Diagnostic.placed
  rw [← hplace]
  unfold Diagnostic.anchor
  cases Diagnostic.anchorOf document d.attributes <;> rfl

/-- A line adds its error to the findings, counts if it is a warning, and may spoil the session. -/
theorem take_fst (line : String) :
    (r.take document path line).1 =
      { diagnostics :=
          r.diagnostics ++ ((Wire.error? line).map (Diagnostic.placed document)).toList
        warnings := r.warnings + (Wire.warns line).toNat
        errorsOccurred := r.errorsOccurred || Wire.condemns line } := by
  obtain ⟨findings, warnings, spoilt⟩ := r
  unfold take Wire.error? Wire.warns Wire.condemns
  cases Wire.decode line with
  | error m => simp
  | ok report =>
      cases report with
      | diagnostic d =>
          cases hseverity : d.severity with
          | error => simp [takeDiagnostic, hseverity, takeError_fst, keep]
          | warning => simp [takeDiagnostic, hseverity, warn]
          | info => simp [takeDiagnostic, hseverity]
          | debug => simp [takeDiagnostic, hseverity]
      | stream cls name description =>
          cases cls with
          | fatal => simp [takeStream]
          | warning => simp [takeStream, warn]
          | informational => simp [takeStream]

theorem errorsOccurred_take (line : String) :
    (r.take document path line).1.errorsOccurred = (r.errorsOccurred || Wire.condemns line) := by
  rw [take_fst]

theorem diagnostics_take {line : String} (hline : Wire.condemns line = false) :
    (r.take document path line).1.diagnostics = r.diagnostics := by
  rw [take_fst, Wire.error?_of_not_condemns hline]
  exact List.append_nil _

end Take

section Gather

variable (document : Snapshot) (path : Path) (lines : List String)

/-- What lines add up to: the errors in order, each with its place, and the number of warnings. -/
theorem gather_eq :
    gather document path lines =
      { diagnostics := (lines.filterMap Wire.error?).map (Diagnostic.placed document)
        warnings := lines.countP Wire.warns
        errorsOccurred := lines.any Wire.condemns } := by
  induction lines using List.reverseRecOn with
  | nil => rfl
  | append_singleton lines line ih =>
      have hfindings : (lines ++ [line]).filterMap Wire.error? =
          lines.filterMap Wire.error? ++ (Wire.error? line).toList := by
        cases herror : Wire.error? line <;> simp [herror]
      have hwarnings : (lines ++ [line]).countP Wire.warns =
          lines.countP Wire.warns + (Wire.warns line).toNat := by
        cases hwarns : Wire.warns line <;> simp [hwarns]
      have hspoilt : (lines ++ [line]).any Wire.condemns =
          (lines.any Wire.condemns || Wire.condemns line) := by
        simp
      rw [gather_append, take_fst, ih, hfindings, hwarnings, hspoilt, List.map_append]
      cases Wire.error? line <;> rfl

theorem errorsOccurred_gather :
    (gather document path lines).errorsOccurred = lines.any Wire.condemns := by
  rw [gather_eq]

variable {lines} in
theorem diagnostics_gather (h : lines.any Wire.condemns = false) :
    (gather document path lines).diagnostics = [] := by
  have hnone : lines.filterMap Wire.error? = [] := by
    refine List.filterMap_eq_nil_iff.2 ?_
    intro line hline
    apply Wire.error?_of_not_condemns
    simpa using List.any_eq_false.1 h line hline
  rw [gather_eq, hnone]
  rfl

end Gather

end SessionRecord

/-! ## The lines that were taken -/

namespace Exchange

/-- The records of a session that are taken in exchanges, in order. -/
def recordsOf (n : Nat) (ms : List Exchange) : List String :=
  Event.records ((taken ms).filter fun e => e.session == n)

variable {n : Nat} {m : Exchange}

theorem recordsOf_append (ms ms' : List Exchange) :
    recordsOf n (ms ++ ms') = recordsOf n ms ++ recordsOf n ms' := by
  simp [recordsOf, taken, Event.records]

theorem recordsOf_cons (m : Exchange) (ms : List Exchange) :
    recordsOf n (m :: ms) = recordsOf n [m] ++ recordsOf n ms :=
  recordsOf_append [m] ms

theorem recordsOf_eq_nil {ms : List Exchange} (h : ∀ e ∈ taken ms, e.session ≠ n) :
    recordsOf n ms = [] := by
  have hnone : (taken ms).filter (fun e => e.session == n) = [] := by
    refine List.filter_eq_nil_iff.2 ?_
    intro e he
    simpa using h e he
  rw [recordsOf, hnone]
  rfl

theorem recordsOf_singleton_eq_nil (h : ∀ e, m.request = .take e → e.output.record? = none) :
    recordsOf n [m] = [] := by
  unfold recordsOf taken event?
  cases hr : m.request with
  | take e =>
      by_cases he : e.session = n
      · simp [hr, Event.records, he, h e hr]
      · simp [hr, Event.records, he]
  | _ => simp [hr, Event.records]

theorem recordsOf_singleton {line : String} (h : m.request = .take ⟨n, .record line⟩) :
    recordsOf n [m] = [line] := by
  simp [recordsOf, taken, event?, h, Event.records, ProcessOutput.record?]

theorem effective_append (ms : List Exchange) (m : Exchange) :
    effective (ms ++ [m]) = effective ms ++ if m.isStale then [] else [m] := by
  cases h : m.isStale <;> simp [effective, h]

/-- Leaving out what is stale leaves out no event of a session, if none of them is stale. -/
theorem recordsOf_effective {ms : List Exchange}
    (h : ∀ m ∈ ms, ∀ e, m.request = .take e → e.session = n → m.isStale = false) :
    recordsOf n (effective ms) = recordsOf n ms := by
  induction ms with
  | nil => rfl
  | cons m ms ih =>
      have hrest := ih fun m' hm' => h m' (List.mem_cons_of_mem _ hm')
      rw [recordsOf_cons m ms, ← hrest]
      cases hstale : m.isStale with
      | false =>
          have hkeep : effective (m :: ms) = m :: effective ms := by simp [effective, hstale]
          rw [hkeep, recordsOf_cons]
      | true =>
          have hdrop : effective (m :: ms) = effective ms := by simp [effective, hstale]
          have hnone : recordsOf n [m] = [] := by
            apply recordsOf_eq_nil
            intro e he hn
            obtain ⟨m', hm', hrequest⟩ := mem_taken.1 he
            rw [List.mem_singleton.1 hm'] at hrequest
            have hfresh := h m List.mem_cons_self e hrequest hn
            rw [hstale] at hfresh
            cases hfresh
          rw [hdrop, hnone, List.nil_append]

end Exchange

/-! ## The record that is shown -/

/-- A verification was asked for in an exchange; if it was started, it was with this document. -/
def Verification.BeganWith (v : Verification) (past : List Exchange) (document : Snapshot) : Prop :=
  ∃ m ∈ past, ∃ s flags, m.request = .verify s v.path flags ∧ m.begun = some v.session ∧
    (m.started = some v.session → s.openText v.path = .ok document)

theorem Verification.BeganWith.append {v v' : Verification} {past : List Exchange}
    {document : Snapshot} (h : v.BeganWith past document) (hsession : v'.session = v.session)
    (hpath : v'.path = v.path) (later : List Exchange) :
    v'.BeganWith (past ++ later) document := by
  obtain ⟨m, hm, s, flags, hrequest⟩ := h
  refine ⟨m, List.mem_append_left _ hm, s, flags, ?_⟩
  rw [hsession, hpath]
  exact hrequest

/-- What is shown was gathered from the records taken of the session, with its document. -/
def Controller.Gathered (c : Controller) (past : List Exchange) : Prop :=
  ∀ v, c.current = some v → ∃ document, v.BeganWith past document ∧
    (∀ d, c.phase = .active v d → d = document) ∧
    v.record = .gather document v.path (Exchange.recordsOf v.session (Exchange.effective past))

namespace Controller

theorem openText_of_prepare {s : Surroundings} {path : Path} {flags : Flags}
    {calls : List HostCall} {document : Snapshot} {command : Invocation}
    (h : prepare s path flags = (calls, .ok (document, command))) :
    s.openText path = .ok document := by
  unfold prepare at h
  split at h
  · cases h
  · split at h
    · cases h
    · next opened hopened =>
        dsimp only at h
        split at h
        · cases h
        · cases h
          exact hopened

namespace Answer

variable {c c' : Controller} {r : Request} {calls : List HostCall} {past : List Exchange}

/-- An answer that is no new session and takes no record leaves the record as it was. -/
theorem gathered_of_current (hg : c.Gathered past) (hcurrent : c'.current = c.current)
    (hphase : ∀ v d, c'.phase = .active v d → c.phase = .active v d)
    (hnone : ∀ e, r = .take e → e.output.record? = none ∨ c.activeSession ≠ some e.session) :
    c'.Gathered (past ++ [⟨c, r⟩]) := by
  intro v hv
  rw [hcurrent] at hv
  obtain ⟨document, hbegan, hdocument, hrecord⟩ := hg v hv
  refine ⟨document, hbegan.append rfl rfl _, fun d hd => hdocument d (hphase v d hd), ?_⟩
  rw [hrecord, Exchange.effective_append]
  cases hstale : (Exchange.mk c r).isStale with
  | true => simp
  | false =>
      have hquiet : Exchange.recordsOf v.session [⟨c, r⟩] = [] := by
        apply Exchange.recordsOf_singleton_eq_nil
        intro e he
        rcases hnone e he with hno | hother
        · exact hno
        · have hr : r = .take e := he
          rw [hr] at hstale
          simp [Exchange.isStale, hother] at hstale
      simp [Exchange.recordsOf_append, hquiet]

/-- Every answer keeps the record that is shown in order. -/
theorem gathered (h : c.Answer r c' calls) (hg : c.Gathered past)
    (hlt : ∀ e ∈ Exchange.taken past, e.session < c.nextSession) :
    c'.Gathered (past ++ [⟨c, r⟩]) := by
  -- Nothing was taken of a session that begins.
  have hnew : ∀ s path flags, r = .verify s path flags →
      Exchange.recordsOf c.nextSession (Exchange.effective (past ++ [⟨c, r⟩])) = [] := by
    rintro s path flags rfl
    rw [Exchange.recordsOf_eq_nil]
    intro e he
    obtain ⟨m, hm, hrequest⟩ := Exchange.mem_taken.1 he
    rcases List.mem_append.1 (List.mem_filter.1 hm).1 with hold | hlast
    · exact Nat.ne_of_lt (hlt e (Exchange.mem_taken.2 ⟨m, hold, hrequest⟩))
    · rw [List.mem_singleton.1 hlast] at hrequest
      cases hrequest
  cases h with
  | @failed s path flags calls failure hprepare =>
      intro v hv
      cases hv
      -- Nothing was gathered, so any document will do.
      refine ⟨⟨[], .utf16⟩, ?_, ?_, ?_⟩
      · refine ⟨⟨c, .verify s path flags⟩, by simp, s, flags, rfl, ?_, ?_⟩
        · exact Exchange.begun_of_verify rfl
        · intro hstarted
          simp [Exchange.started, c.verify_of_error hprepare] at hstarted
      · intro d hd
        cases hd
      · rw [hnew _ _ _ rfl]
        rfl
  | @started s path flags calls document command hprepare =>
      intro v hv
      cases hv
      refine ⟨document, ?_, ?_, ?_⟩
      · exact ⟨⟨c, .verify s path flags⟩, by simp, s, flags, rfl, Exchange.begun_of_verify rfl,
          fun _ => openText_of_prepare hprepare⟩
      · intro d hd
        cases hd
        rfl
      · rw [hnew _ _ _ rfl]
        rfl
  | @stale e hother =>
      refine gathered_of_current hg rfl (fun v d hd => hd) ?_
      intro e' he'
      cases he'
      exact .inr hother
  | @record v document line hp =>
      intro v' hv'
      cases hv'
      obtain ⟨document', hbegan, hdocument, hrecord⟩ := hg v (by simp [current, hp])
      obtain rfl := hdocument document hp
      have hfresh : (Exchange.mk c (.take ⟨v.session, .record line⟩)).isStale = false := by
        simp [Exchange.isStale, activeSession_of_active hp]
      refine ⟨document, hbegan.append rfl rfl _, ?_, ?_⟩
      · intro d hd
        cases hd
        rfl
      · simp only [Exchange.effective_append, hfresh, Bool.false_eq_true, if_false,
          Exchange.recordsOf_append]
        rw [Exchange.recordsOf_singleton rfl, SessionRecord.gather_append, ← hrecord]
  | @complaint v document chunk hp =>
      refine gathered_of_current hg rfl (fun v d hd => hd) ?_
      intro e' he'
      cases he'
      exact .inl rfl
  | @ended v document termination hp =>
      refine gathered_of_current hg (by simp [current, hp]) (fun v' d hd => by simp at hd) ?_
      intro e' he'
      cases he'
      exact .inl rfl
  | stopped =>
      intro v hv
      cases hv
  | aside haside _ =>
      refine gathered_of_current hg rfl (fun v d hd => hd) ?_
      rintro e rfl
      cases haside

end Answer
end Controller

namespace History

variable {past : List Exchange} {c : Controller}

theorem gathered (h : History past c) : c.Gathered past := by
  induction h with
  | start =>
      intro v hv
      cases hv
  | @next past m hpast _ ih =>
      refine m.answer.gathered ih ?_
      intro e he
      obtain ⟨m', hm', hrequest⟩ := Exchange.mem_taken.1 he
      exact hpast.taken_lt hm' hrequest

/-- While a session runs, everything that was taken of it was taken in time. -/
theorem not_isStale (h : History past c) {n : Nat} (hn : c.activeSession = some n) {m : Exchange}
    (hm : m ∈ past) {e : Event} (he : m.request = .take e) (hsession : e.session = n) :
    m.isStale = false := by
  by_contra hne
  -- The session would have been over then, and so it would be now.
  have hstale : m.isStale = true := by simpa using hne
  obtain ⟨before, later, rfl⟩ := List.append_of_mem hm
  have hover : m.after.Over n := by
    rw [(Exchange.eq_of_isStale hstale).1, ← hsession]
    refine ⟨h.split.2 e he, ?_⟩
    simpa [Exchange.isStale, he] using hstale
  exact (h.over_kept hover).1.2 hn

theorem recordsOf_effective (h : History past c) {n : Nat} (hn : c.activeSession = some n) :
    Exchange.recordsOf n (Exchange.effective past) = Exchange.recordsOf n past :=
  Exchange.recordsOf_effective fun _ hm _ he hsession => h.not_isStale hn hm he hsession

theorem gathered_of_active (h : History past c) {v : Verification} {document : Snapshot}
    (hp : c.phase = .active v document) :
    v.record = .gather document v.path (Exchange.recordsOf v.session past) := by
  obtain ⟨document', -, hdocument, hrecord⟩ := h.gathered v (by simp [Controller.current, hp])
  rw [hrecord, hdocument document hp,
    h.recordsOf_effective (Controller.activeSession_of_active hp)]

end History
end VerifierSession
