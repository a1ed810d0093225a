import VerifierSession.Proofs.Gathering

/-!
# Lines that are no records

A verifier may print what is no record, or nothing at all, between its records.  Such lines are told
of in the log and nothing else comes of them.

* `SessionRecord.take_of_rejected`: what is made of one such line;
* `Strewn`: lines with others strewn among them, and `Strewn.calls` for what they all lead to;
* `Controller.takeList_strewn`: the lines among which others are strewn lead to what they lead to
  alone;
* `Controller.rejected_lines_only_warn`: the same with the text of the warnings, what every line
  leads to, and what ends a session.
-/

namespace VerifierSession

/-! ## One line -/

namespace Wire

/-- Whether a line is refused by the decoder, or has nothing but blanks. -/
def Rejected (line : String) : Prop :=
  Text.trim line.toList = [] ∨ ∃ m, decode line = .error m

theorem Rejected.exists_reason {line : String} (h : Rejected line) :
    ∃ reason, decode line = .error ⟨line, reason⟩ := by
  rcases h with hblank | ⟨m, hm⟩
  · have hnothing : ∃ reason, decodeTrimmed [] = .error reason := ⟨_, rfl⟩
    obtain ⟨reason, hreason⟩ := hnothing
    exact ⟨reason, by rw [decode, hblank, hreason]⟩
  · unfold decode at hm ⊢
    split at hm
    · cases hm
    · next reason hreason => exact ⟨reason, rfl⟩

end Wire

namespace SessionRecord

/-- The warning about a line that is no record; there is none about others. -/
def warning (line : String) : List HostCall :=
  match Wire.decode line with
  | .ok _ => []
  | .error m => [.log .warn (malformedText m)]

theorem take_of_rejected (r : SessionRecord) (document : Snapshot) (path : Path) {line : String}
    (h : Wire.Rejected line) : r.take document path line = (r, warning line) := by
  obtain ⟨reason, hreason⟩ := h.exists_reason
  simp only [take, warning, hreason]

theorem exists_log_of_take (r : SessionRecord) (document : Snapshot) (path : Path) (line : String) :
    ∃ level text, .log level text ∈ (r.take document path line).2 := by
  unfold take
  split
  · next d _ =>
      unfold takeDiagnostic
      split
      · unfold takeError
        split
        · exact ⟨_, _, List.mem_cons_self⟩
        · exact ⟨_, _, List.mem_cons_self⟩
      · exact ⟨_, _, List.mem_cons_self⟩
      · exact ⟨_, _, List.mem_cons_self⟩
      · exact ⟨_, _, List.mem_cons_self⟩
  · next cls name description _ =>
      cases cls with
      | fatal => exact ⟨_, _, List.mem_cons_of_mem _ List.mem_cons_self⟩
      | warning => exact ⟨_, _, List.mem_cons_of_mem _ List.mem_cons_self⟩
      | informational => exact ⟨_, _, List.mem_cons_self⟩
  · exact ⟨_, _, List.mem_cons_self⟩

end SessionRecord

/-! ## Lines strewn among others -/

/-- Lines, with others strewn among them: some before the first, and some after each. -/
structure Strewn where
  first : List String
  rest : List (String × List String)

namespace Strewn

def own (s : Strewn) : List String :=
  s.rest.map Prod.fst

def strays (s : Strewn) : List String :=
  s.first ++ s.rest.flatMap Prod.snd

def all (s : Strewn) : List String :=
  s.first ++ s.rest.flatMap fun p => p.1 :: p.2

/-- The calls that the lines lead to alone, with a warning at the place of each line strewn in. -/
def calls (s : Strewn) (alone : List (List HostCall)) : List HostCall :=
  s.first.flatMap SessionRecord.warning ++
    (alone.zip s.rest).flatMap fun p => p.1 ++ p.2.2.flatMap SessionRecord.warning

end Strewn

namespace Controller

def reading (n : Nat) (line : String) : Request :=
  .take ⟨n, .record line⟩

def replies (c : Controller) (n : Nat) (lines : List String) : List (List HostCall) :=
  (c.course (lines.map (reading n))).map Exchange.calls

theorem replies_cons (c : Controller) (n : Nat) (line : String) (lines : List String) :
    c.replies n (line :: lines) =
      (c.respond (reading n line)).2 :: (c.respond (reading n line)).1.replies n lines := rfl

section Active

variable {c : Controller} {n : Nat} (h : c.activeSession = some n)
include h

theorem respond_reading (line : String) :
    ∃ v document, c.phase = .active v document ∧ c.respond (reading n line) =
      ({ c with
          phase := .active { v with record := (v.record.take document v.path line).1 } document },
        (v.record.take document v.path line).2) := by
  obtain ⟨v, document, hp, rfl⟩ := exists_of_activeSession h
  refine ⟨v, document, hp, ?_⟩
  simp only [respond, reading, take, hp, takeOutput, if_true]

theorem activeSession_reading (line : String) :
    (c.respond (reading n line)).1.activeSession = some n := by
  rcases (c.answer (reading n line)).activeSession_kept h rfl with hruns | ⟨termination, hrequest⟩
  · exact hruns
  · cases hrequest

theorem respond_of_rejected {line : String} (hline : Wire.Rejected line) :
    c.respond (reading n line) = (c, SessionRecord.warning line) := by
  obtain ⟨v, document, hp, hrespond⟩ := respond_reading h line
  rw [hrespond, v.record.take_of_rejected document v.path hline]
  obtain ⟨phase, indicator, nextSession, hovers⟩ := c
  cases hp
  rfl

theorem course_of_rejected {lines : List String} (hlines : ∀ line ∈ lines, Wire.Rejected line) :
    c.after (lines.map (reading n)) = c ∧
      (c.course (lines.map (reading n))).flatMap Exchange.calls =
        lines.flatMap SessionRecord.warning := by
  -- The controller stays the same all along, so the induction is on the lines alone.
  induction lines with
  | nil => exact ⟨rfl, rfl⟩
  | cons line lines ih =>
      obtain ⟨hafter, hcalls⟩ := ih fun line' hline' => hlines line' (List.mem_cons_of_mem _ hline')
      have hfirst := respond_of_rejected h (hlines line List.mem_cons_self)
      constructor
      · rw [List.map_cons, after, hfirst]
        exact hafter
      · rw [List.map_cons, course, List.flatMap_cons, List.flatMap_cons, hfirst, hcalls,
          Exchange.calls, hfirst]

/-- Lines with refused ones after each lead to what they lead to alone, and to the warnings. -/
theorem course_strewn (rest : List (String × List String))
    (hstrays : ∀ p ∈ rest, ∀ line ∈ p.2, Wire.Rejected line) :
    c.after ((rest.flatMap fun p => p.1 :: p.2).map (reading n)) =
        c.after ((rest.map Prod.fst).map (reading n)) ∧
      (c.course ((rest.flatMap fun p => p.1 :: p.2).map (reading n))).flatMap Exchange.calls =
        ((c.replies n (rest.map Prod.fst)).zip rest).flatMap
          fun p => p.1 ++ p.2.2.flatMap SessionRecord.warning := by
  -- The induction is on the lines; what is strewn after one leaves the controller where it was.
  induction rest generalizing c with
  | nil => exact ⟨rfl, rfl⟩
  | cons p rest ih =>
      obtain ⟨line, later⟩ := p
      have hnext := activeSession_reading h line
      obtain ⟨hstay, hwarned⟩ := course_of_rejected hnext (hstrays (line, later) List.mem_cons_self)
      obtain ⟨hafter, hcalls⟩ := ih hnext fun p hp => hstrays p (List.mem_cons_of_mem _ hp)
      have hlines : (((line, later) :: rest).flatMap fun p => p.1 :: p.2).map (reading n) =
          reading n line :: (later.map (reading n) ++
            (rest.flatMap fun p => p.1 :: p.2).map (reading n)) := by
        rw [List.flatMap_cons, List.cons_append, List.map_cons, List.map_append]
      rw [hlines, after, course, after_append, course_append, hstay, List.flatMap_cons,
        List.flatMap_append, hwarned, hafter, hcalls]
      refine ⟨rfl, ?_⟩
      rw [List.map_cons, replies_cons, List.zip_cons_cons, List.flatMap_cons, List.append_assoc]
      rfl

/-- What the lines lead to among which others are strewn is what they lead to alone. -/
theorem takeList_strewn (s : Strewn) (hstrays : ∀ line ∈ s.strays, Wire.Rejected line) :
    c.takeList (s.all.map fun line => ⟨n, .record line⟩) =
      ((c.takeList (s.own.map fun line => ⟨n, .record line⟩)).1,
        s.calls (c.replies n s.own)) := by
  have hevents : ∀ lines : List String,
      (lines.map fun line => (⟨n, .record line⟩ : Event)).map Request.take =
        lines.map (reading n) := fun lines => List.map_map
  have hfirst := course_of_rejected h fun line hline => hstrays line (List.mem_append_left _ hline)
  have hrest := course_strewn h s.rest fun p hp line hline =>
    hstrays line (List.mem_append_right _ (List.mem_flatMap.2 ⟨p, hp, hline⟩))
  simp only [takeList_eq, hevents, Strewn.all, Strewn.own, Strewn.calls]
  rw [List.map_append, after_append, course_append, List.flatMap_append, hfirst.1, hfirst.2,
    hrest.1, hrest.2]

/-- A line is told of in the log, and it adds no more than one finding. -/
theorem take_line (line : String) :
    (∃ level text, .log level text ∈ (c.take ⟨n, .record line⟩).2) ∧
      ∃ found : Option Diagnostic, (c.take ⟨n, .record line⟩).1.record.diagnostics =
        c.record.diagnostics ++ found.toList := by
  obtain ⟨v, document, hp, hrespond⟩ := respond_reading h line
  have htake : c.take ⟨n, .record line⟩ = _ := hrespond
  rw [htake]
  refine ⟨v.record.exists_log_of_take document v.path line, ?_⟩
  refine ⟨(Wire.error? line).map (Diagnostic.placed document), ?_⟩
  simp only [record, current, hp, Option.map_some, Option.getD_some, SessionRecord.take_fst]

/-- A session ends with the end of its process, and with no other event. -/
theorem take_ends_iff (e : Event) :
    (c.take e).1.activeSession ≠ some n ↔ ∃ termination, e = ⟨n, .ended termination⟩ := by
  constructor
  · intro hover
    rcases (c.answer (.take e)).activeSession_kept h rfl with hruns | ⟨termination, hrequest⟩
    · exact absurd hruns hover
    · cases hrequest
      exact ⟨termination, rfl⟩
  · rintro ⟨termination, rfl⟩
    obtain ⟨v, document, hp, rfl⟩ := exists_of_activeSession h
    simp [take, hp, takeOutput, activeSession]

end Active

/-! ## What the lines lead to -/

/--
Lines that are refused only lead to a warning each, at its place, with the reason and the line.
Every line is told of in the log and adds no more than one finding; none ends the session.
-/
theorem rejected_lines_only_warn (c : Controller) {n : Nat} (h : c.activeSession = some n)
    (s : Strewn) (hstrays : ∀ line ∈ s.strays, Wire.Rejected line) :
    (c.takeList (s.own.map fun line => ⟨n, .record line⟩)).2 = (c.replies n s.own).flatten ∧
      c.takeList (s.all.map fun line => ⟨n, .record line⟩) =
        ((c.takeList (s.own.map fun line => ⟨n, .record line⟩)).1, s.calls (c.replies n s.own)) ∧
      (∀ line ∈ s.strays, ∃ reason, Wire.decode line = .error ⟨line, reason⟩ ∧
        SessionRecord.warning line =
          [.log .warn ("Could not parse verifier output (" ++ reason.text ++ "): " ++ line)]) ∧
      (∀ line, (∃ level text, .log level text ∈ (c.take ⟨n, .record line⟩).2) ∧
        ∃ found : Option Diagnostic, (c.take ⟨n, .record line⟩).1.record.diagnostics =
          c.record.diagnostics ++ found.toList) ∧
      ∀ e : Event,
        (c.take e).1.activeSession ≠ some n ↔ ∃ termination, e = ⟨n, .ended termination⟩ := by
  refine ⟨?_, takeList_strewn h s hstrays, ?_, take_line h, take_ends_iff h⟩
  · rw [takeList_eq, List.map_map, replies, ← List.flatMap_def]
    rfl
  · intro line hline
    obtain ⟨reason, hreason⟩ := (hstrays line hline).exists_reason
    refine ⟨reason, hreason, ?_⟩
    simp only [SessionRecord.warning, hreason]
    rfl

def sampleController : Controller where
  phase := .active { session := 1, path := ⟨"method.hhl"⟩ } ⟨"method m()".toList, .utf16⟩
  nextSession := 2

/-- An error with a line of a stack trace before it, and a blank one after it. -/
def sampleStrewn : Strewn where
  first := ["Exception"]
  rest := [("\x7b\"level\":\"ERR\",\"message\":\"m\"\x7d", ["  "])]

theorem takeList_sampleStrewn :
    (sampleController.takeList (sampleStrewn.all.map fun line => ⟨1, .record line⟩)).2 =
      [.log .warn ("Could not parse verifier output " ++
          "(invalid record: expected value at line 1 column 1): Exception"),
        .log .error "method.hhl: error: m",
        .log .warn ("Could not parse verifier output " ++
          "(invalid record: EOF while parsing a value at line 1 column 0):   ")] := by
  have hstrays : ∀ line ∈ sampleStrewn.strays, Wire.Rejected line := by
    intro line hline
    rcases List.mem_cons.1 hline with rfl | hblank
    · exact .inr ⟨_, rfl⟩
    · rw [List.mem_singleton.1 hblank]
      exact .inl (by decide)
  have htake := (sampleController.rejected_lines_only_warn rfl sampleStrewn hstrays).2.1
  have hreplies : sampleController.replies 1 sampleStrewn.own =
      [[.log .error "method.hhl: error: m"]] := by
    decide +kernel
  rw [htake, hreplies]
  decide +kernel

end Controller
end VerifierSession
