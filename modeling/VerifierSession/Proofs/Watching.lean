import Mathlib.Data.List.Basic
import VerifierSession.Console.Program
import VerifierSession.Proofs.Agreement
import VerifierSession.Proofs.Conclusion
import VerifierSession.Proofs.Independence

/-!
# Watching

A program that watches is given lines of input, the input ends, and in between something happens on
its bench, in any order.  What counts for its exit code is the last file that a line names.

* `Occurrence.lines`: the lines of the input, however it arrives;
* `Program.happenings`: what a run of the program makes happen on its bench (`Program.bench_run`);
* `Program.verified_happenings`: the files that are verified are those that the lines name;
* `Program.Watches`: when the program is over, and with which exit code;
* `Program.watching_exits_with_last`: the exit code is the verdict on the last verification.
-/

namespace VerifierSession

/-- The file that is to be verified, if that is what happens. -/
def Happening.verified? : Happening → Option Path
  | .action (.verify path _) => some path
  | _ => none

theorem Happening.verified?_of_not_givesUp {h : Happening} (hgives : h.givesUp = false) :
    h.verified? = none := by
  unfold verified?
  split
  · cases hgives
  · rfl

namespace Console

/-! ## Lines of input -/

def IsText (line : List UInt8) : Prop :=
  (Text.Utf8.text? line).isSome = true

instance (line : List UInt8) : Decidable (IsText line) :=
  inferInstanceAs (Decidable (_ = true))

/-- The file that a line names, if it names one to verify. -/
def source? (line : String) : Option Path :=
  if isVerifierSource ⟨Text.trimmed line⟩ then some ⟨Text.trimmed line⟩ else none

def lineAction? (line : String) : Option Action :=
  if (Text.trimmed line).isEmpty then none
  else
    match source? line with
    | some path => some (.verify path .configured)
    | none => some (.notify .warn (Program.skipText ⟨Text.trimmed line⟩))

def lineText? (line : List UInt8) : Option String :=
  (Text.Utf8.text? line).map String.ofList

def lineHappenings (line : List UInt8) : List Happening :=
  ((lineText? line).bind lineAction?).toList.map .action

inductive Occurrence where
  | input (bytes : List UInt8)
  | endOfInput
  | happening (h : Happening)

namespace Occurrence

def bytes : List Occurrence → List UInt8
  | [] => []
  | .input new :: os => new ++ bytes os
  | .endOfInput :: _ => []
  | .happening _ :: os => bytes os

def ends : List Occurrence → Bool
  | [] => false
  | .endOfInput :: _ => true
  | _ :: os => ends os

/--
The lines of the input, if a line has begun before: those that a line feed ends, and what follows
the last one once the input has ended.
-/
def linesFrom (begun : List UInt8) (os : List Occurrence) : List (List UInt8) :=
  (Framing.cut (begun ++ bytes os)).1 ++
    if ends os then [(Framing.cut (begun ++ bytes os)).2] else []

def lines (os : List Occurrence) : List (List UInt8) :=
  linesFrom [] os

/-- More input first ends lines, and then a new one has begun. -/
theorem linesFrom_input (begun new : List UInt8) (os : List Occurrence) :
    linesFrom begun (.input new :: os) =
      (Framing.cut (begun ++ new)).1 ++ linesFrom (Framing.cut (begun ++ new)).2 os := by
  simp only [linesFrom, bytes, ends, ← List.append_assoc, Framing.cut_append (begun ++ new)]

theorem linesFrom_endOfInput {begun : List UInt8} (h : Framing.lineFeed ∉ begun)
    (os : List Occurrence) : linesFrom begun (.endOfInput :: os) = [begun] := by
  simp [linesFrom, bytes, ends, Framing.cut_of_not_mem h]

end Occurrence

namespace Program

/-! ## Occurrences -/

/-- The program after an occurrence; nothing occurs to a program that is over. -/
def undergo (p : Program) : Occurrence → Program
  | .input bytes => p.feed bytes
  | .endOfInput => p.close
  | .happening h =>
      match p.stage with
      | .over _ => p
      | _ => (p.note (p.bench.befall h).1 (p.bench.befall h).2).advance

def run (p : Program) (os : List Occurrence) : Program :=
  os.foldl undergo p

def stirs (p : Program) (o : Occurrence) : List Happening :=
  match p.stage, o with
  | .watching begun, .input bytes => (Framing.cut (begun ++ bytes)).1.flatMap lineHappenings
  | .watching begun, .endOfInput => lineHappenings begun
  | .over _, .happening _ => []
  | _, .happening h => [h]
  | _, _ => []

def happenings (p : Program) : List Occurrence → List Happening
  | [] => []
  | o :: os => p.stirs o ++ (p.undergo o).happenings os

/--
A program that watches waits for input, then for the last verification, and is over with an exit
code for its status.
-/
def Watches (p : Program) : Prop :=
  match p.stage with
  | .verifying _ => False
  | .watching _ => True
  | .closing => p.bench.controller.activeSession.isSome = true
  | .over code => p.bench.controller.activeSession = none ∧ code = exitCode p.status

/-- Whether the program still takes lines. -/
def Reads (p : Program) : Prop :=
  ∃ begun, p.stage = .watching begun

variable {p : Program} {begun : List UInt8}

/-! ## One line -/

@[simp] theorem note_bench (p : Program) (bench : Workbench) (calls : List HostCall) :
    (p.note bench calls).bench = bench := rfl

@[simp] theorem note_stage (p : Program) (bench : Workbench) (calls : List HostCall) :
    (p.note bench calls).stage = p.stage := rfl

@[simp] theorem perform_bench (p : Program) (a : Action) :
    (p.perform a).1.bench = (p.bench.act a).1 := rfl

@[simp] theorem perform_stage (p : Program) (a : Action) : (p.perform a).1.stage = p.stage := rfl

theorem takeLine_eq (p : Program) (line : String) :
    p.takeLine line = ((lineAction? line).map fun a => (p.perform a).1).getD p := by
  unfold takeLine lineAction? source?
  by_cases hblank : (Text.trimmed line).isEmpty = true
  · simp only [hblank, if_true, Option.map_none, Option.getD_none]
  · by_cases hsource : isVerifierSource ⟨Text.trimmed line⟩ = true
    · simp only [hblank, hsource, if_true, Bool.false_eq_true, if_false, Option.map_some,
        Option.getD_some]
    · simp only [hblank, hsource, Bool.false_eq_true, if_false, Option.map_some,
        Option.getD_some]

theorem takeLine_spec (p : Program) (line : String) :
    (p.takeLine line).bench = p.bench.after ((lineAction? line).toList.map .action) ∧
      (p.takeLine line).stage = p.stage := by
  rw [takeLine_eq]
  cases lineAction? line with
  | none => exact ⟨rfl, rfl⟩
  | some a => simp [Workbench.after, Workbench.befall]

/-- A line that names no file to verify is told of, and nothing else changes. -/
theorem takeLine_of_other (p : Program) {line : String} (hblank : Text.trimmed line ≠ "")
    (h : source? line = none) :
    p.takeLine line =
      { p with printed := p.printed ++ ("warn: " ++ skipText ⟨Text.trimmed line⟩ ++ "\n") } := by
  have haction : lineAction? line = some (.notify .warn (skipText ⟨Text.trimmed line⟩)) := by
    simp [lineAction?, h, hblank]
  rw [takeLine_eq, haction]
  simp [perform, note, Workbench.act, showCalls, openedBy, callText, levelWord, commandOf]

theorem takeLine_of_blank (p : Program) {line : String} (hblank : Text.trimmed line = "") :
    p.takeLine line = p := by
  rw [takeLine_eq, lineAction?, if_pos (by simp [hblank])]
  rfl

theorem takeBytes_spec (hstage : p.stage = .watching begun) {line : List UInt8}
    (htext : IsText line) :
    (p.takeBytes line).bench = p.bench.after (lineHappenings line) ∧
      (p.takeBytes line).stage = p.stage := by
  obtain ⟨text, hline⟩ := Option.isSome_iff_exists.1 htext
  have htake : p.takeBytes line = p.takeLine (String.ofList text) := by
    simp only [takeBytes, hstage, hline]
  have hhappen : lineHappenings line =
      (lineAction? (String.ofList text)).toList.map .action := by
    simp [lineHappenings, lineText?, hline]
  rw [htake, hhappen]
  exact p.takeLine_spec _

theorem foldl_takeBytes (hstage : p.stage = .watching begun) {lines : List (List UInt8)}
    (htext : ∀ line ∈ lines, IsText line) :
    (lines.foldl takeBytes p).bench = p.bench.after (lines.flatMap lineHappenings) ∧
      (lines.foldl takeBytes p).stage = p.stage := by
  induction lines generalizing p with
  | nil => exact ⟨rfl, rfl⟩
  | cons line lines ih =>
      obtain ⟨hbench, hsame⟩ := takeBytes_spec hstage (htext line List.mem_cons_self)
      obtain ⟨hlater, hstay⟩ := ih (hsame.trans hstage)
        fun line' hline' => htext line' (List.mem_cons_of_mem _ hline')
      refine ⟨?_, hstay.trans hsame⟩
      rw [List.foldl_cons, hlater, hbench, List.flatMap_cons, Workbench.after_run]

/-! ## One occurrence -/

theorem feed_spec (hstage : p.stage = .watching begun) {bytes : List UInt8}
    (htext : ∀ line ∈ (Framing.cut (begun ++ bytes)).1, IsText line) :
    (p.feed bytes).bench = p.bench.after (p.stirs (.input bytes)) ∧
      (p.feed bytes).stage = .watching (Framing.cut (begun ++ bytes)).2 := by
  obtain ⟨hbench, hsame⟩ := foldl_takeBytes hstage htext
  rw [hstage] at hsame
  simp only [feed, hstage, keep, hsame, stirs, and_true]
  exact hbench

/-- Whoever waits for the last verification goes on when none runs. -/
theorem advance_of_closing (hstage : p.stage = .closing) :
    p.advance.bench = p.bench ∧ p.advance.Watches ∧ ¬ p.advance.Reads := by
  cases hactive : p.bench.controller.activeSession with
  | none =>
      have hadvance : p.advance = p.exit (exitCode p.status) := by
        simp [advance, hactive, hstage]
      rw [hadvance]
      exact ⟨rfl, ⟨hactive, rfl⟩, by simp [Reads, exit]⟩
  | some n =>
      have hadvance : p.advance = p := by simp [advance, hactive]
      rw [hadvance]
      refine ⟨rfl, ?_, by simp [Reads, hstage]⟩
      simp [Watches, hstage, hactive]

theorem close_spec (hstage : p.stage = .watching begun) (htext : IsText begun) :
    p.close.bench = p.bench.after (p.stirs .endOfInput) ∧ p.close.Watches ∧ ¬ p.close.Reads := by
  cases begun with
  | nil =>
      have hclose : p.close = { p with stage := .closing }.advance := by simp [close, hstage]
      have hstirs : p.stirs .endOfInput = [] := by
        simp only [stirs, hstage]
        decide
      rw [hclose, hstirs]
      exact advance_of_closing (p := { p with stage := .closing }) rfl
  | cons b bs =>
      obtain ⟨hbench, hsame⟩ := takeBytes_spec hstage htext
      rw [hstage] at hsame
      have hclose : p.close = { p.takeBytes (b :: bs) with stage := .closing }.advance := by
        simp only [close, hstage, hsame]
      obtain ⟨hkept, hwatches, hreads⟩ :=
        advance_of_closing (p := { p.takeBytes (b :: bs) with stage := .closing }) rfl
      rw [hclose]
      refine ⟨hkept.trans ?_, hwatches, hreads⟩
      simpa only [stirs, hstage] using hbench

/-- Until the program is over, whatever happens on its bench happens. -/
theorem happening_of_watching (hstage : p.stage = .watching begun) (h : Happening) :
    (p.undergo (.happening h)).bench = p.bench.after (p.stirs (.happening h)) ∧
      (p.undergo (.happening h)).stage = p.stage := by
  have hstirs : p.stirs (.happening h) = [h] := by simp only [stirs, hstage]
  have hadvance : ∀ q : Program, q.stage = .watching begun → q.advance = q := by
    intro q hq
    simp [advance, hq]
  have hundergo : p.undergo (.happening h) = p.note (p.bench.befall h).1 (p.bench.befall h).2 := by
    simp only [undergo, hstage, hadvance (p.note (p.bench.befall h).1 (p.bench.befall h).2) hstage]
  rw [hstirs, hundergo]
  exact ⟨rfl, rfl⟩

theorem happening_of_closing (hstage : p.stage = .closing) (h : Happening) :
    (p.undergo (.happening h)).bench = p.bench.after (p.stirs (.happening h)) ∧
      (p.undergo (.happening h)).Watches ∧ ¬ (p.undergo (.happening h)).Reads := by
  have hstirs : p.stirs (.happening h) = [h] := by simp only [stirs, hstage]
  simp only [hstirs, undergo, hstage]
  exact advance_of_closing (p := p.note (p.bench.befall h).1 (p.bench.befall h).2) hstage

theorem undergo_of_over {code : Nat} (hstage : p.stage = .over code) (o : Occurrence) :
    p.undergo o = p ∧ p.stirs o = [] := by
  cases o with
  | input bytes => simp [undergo, feed, stirs, hstage]
  | endOfInput => simp [undergo, close, stirs, hstage]
  | happening h => simp [undergo, stirs, hstage]

/-- Where no lines are taken any more, the program waits for the last verification. -/
theorem undergo_of_not_reads (hp : p.Watches) (hreads : ¬ p.Reads) (o : Occurrence) :
    (p.undergo o).bench = p.bench.after (p.stirs o) ∧ (p.undergo o).Watches ∧
      ¬ (p.undergo o).Reads ∧ ∀ h ∈ p.stirs o, o = .happening h := by
  cases hstage : p.stage with
  | verifying file => simp [Watches, hstage] at hp
  | watching begun => exact absurd ⟨begun, hstage⟩ hreads
  | closing =>
      cases o with
      | input bytes =>
          have hfeed : p.undergo (.input bytes) = p := by simp [undergo, feed, hstage]
          have hstirs : p.stirs (.input bytes) = [] := by simp [stirs, hstage]
          rw [hfeed, hstirs]
          exact ⟨rfl, hp, hreads, by simp⟩
      | endOfInput =>
          have hclose : p.undergo .endOfInput = p := by simp [undergo, close, hstage]
          have hstirs : p.stirs .endOfInput = [] := by simp [stirs, hstage]
          rw [hclose, hstirs]
          exact ⟨rfl, hp, hreads, by simp⟩
      | happening h =>
          obtain ⟨hbench, hwatches, hstays⟩ := happening_of_closing hstage h
          refine ⟨hbench, hwatches, hstays, ?_⟩
          simp [stirs, hstage]
  | «over» code =>
      obtain ⟨hsame, hstirs⟩ := undergo_of_over hstage o
      rw [hsame, hstirs]
      exact ⟨rfl, hp, hreads, by simp⟩

/-! ## Runs -/

theorem run_of_not_reads (hp : p.Watches) (hreads : ¬ p.Reads) (os : List Occurrence) :
    (p.run os).bench = p.bench.after (p.happenings os) ∧ (p.run os).Watches ∧
      ¬ (p.run os).Reads ∧ ∀ h ∈ p.happenings os, .happening h ∈ os := by
  induction os generalizing p with
  | nil => exact ⟨rfl, hp, hreads, by simp [happenings]⟩
  | cons o os ih =>
      obtain ⟨hbench, hwatches, hstays, hmem⟩ := undergo_of_not_reads hp hreads o
      obtain ⟨hrun, hafter, hfinal, hlater⟩ := ih hwatches hstays
      refine ⟨?_, hafter, hfinal, ?_⟩
      · rw [happenings, Workbench.after_run, ← hbench]
        exact hrun
      · intro h hh
        rcases List.mem_append.1 hh with hfirst | hrest
        · rw [hmem h hfirst]
          exact List.mem_cons_self
        · exact List.mem_cons_of_mem _ (hlater h hrest)

/-- The files that the lines of the input name. -/
def sources (lines : List (List UInt8)) : List Path :=
  lines.filterMap fun line => (lineText? line).bind source?

theorem verified_lineHappenings (lines : List (List UInt8)) :
    (lines.flatMap lineHappenings).filterMap Happening.verified? = sources lines := by
  have hline : ∀ line : String, ((lineAction? line).toList.map Happening.action).filterMap
      Happening.verified? = (source? line).toList := by
    intro line
    unfold lineAction?
    split
    · next hblank =>
        have hname : Text.trimmed line = "" := by simpa using hblank
        have hnone : source? line = none := by
          rw [source?, hname]
          decide
        simp [hnone]
    · cases source? line <;> rfl
  rw [List.filterMap_flatMap, sources, List.filterMap_eq_flatMap_toList]
  refine List.flatMap_congr ?_
  intro line _
  cases hl : lineText? line with
  | none => simp [lineHappenings, hl]
  | some text => simpa [lineHappenings, hl] using hline text

/--
A program that reads lines: what it does is what happens on its bench, and the files that are
verified are those that the lines name.
-/
theorem run_of_watching (hstage : p.stage = .watching begun) (hbegun : Framing.lineFeed ∉ begun)
    {os : List Occurrence} (htext : ∀ line ∈ Occurrence.linesFrom begun os, IsText line) :
    (p.run os).bench = p.bench.after (p.happenings os) ∧ (p.run os).Watches ∧
      (Occurrence.ends os = true → ¬ (p.run os).Reads) ∧
      ((∀ h, .happening h ∈ os → h.givesUp = false) →
        (p.happenings os).filterMap Happening.verified? =
          sources (Occurrence.linesFrom begun os)) := by
  induction os generalizing p begun with
  | nil =>
      refine ⟨rfl, ?_, ?_, ?_⟩
      · simp [Watches, run, hstage]
      · simp [Occurrence.ends]
      · intro _
        simp [happenings, Occurrence.linesFrom, Occurrence.bytes, Occurrence.ends,
          Framing.cut_of_not_mem hbegun, sources]
  | cons o os ih =>
      have hgives : (∀ h, .happening h ∈ o :: os → h.givesUp = false) →
          ∀ h, .happening h ∈ os → h.givesUp = false :=
        fun hall h hh => hall h (List.mem_cons_of_mem _ hh)
      cases o with
      | input bytes =>
          rw [Occurrence.linesFrom_input] at htext ⊢
          obtain ⟨hbench, hnext⟩ := feed_spec hstage fun line hline =>
            htext line (List.mem_append_left _ hline)
          obtain ⟨hrun, hafter, hends, hverified⟩ := ih hnext (Framing.lineFeed_not_mem_left _)
            fun line hline => htext line (List.mem_append_right _ hline)
          refine ⟨?_, hafter, hends, ?_⟩
          · rw [happenings, Workbench.after_run, ← hbench]
            exact hrun
          · intro hall
            have hfirst : p.stirs (.input bytes) =
                (Framing.cut (begun ++ bytes)).1.flatMap lineHappenings := by
              simp only [stirs, hstage]
            rw [happenings, List.filterMap_append, hfirst, verified_lineHappenings, sources,
              sources, List.filterMap_append]
            exact congrArg _ (hverified (hgives hall))
      | endOfInput =>
          rw [Occurrence.linesFrom_endOfInput hbegun] at htext ⊢
          obtain ⟨hbench, hwatches, hreads⟩ := close_spec hstage (htext begun (by simp))
          obtain ⟨hrun, hafter, hfinal, hmem⟩ := run_of_not_reads hwatches hreads os
          refine ⟨?_, hafter, fun _ => hfinal, ?_⟩
          · rw [happenings, Workbench.after_run, ← hbench]
            exact hrun
          · -- After the input nothing happens but what happens of itself.
            intro hall
            have hfirst : p.stirs .endOfInput = [begun].flatMap lineHappenings := by
              simp only [stirs, hstage, List.flatMap_singleton]
            have hlater : (happenings (p.undergo .endOfInput) os).filterMap Happening.verified? =
                [] := by
              refine List.filterMap_eq_nil_iff.2 ?_
              intro h hh
              exact Happening.verified?_of_not_givesUp (hgives hall h (hmem h hh))
            rw [happenings, List.filterMap_append, hfirst, verified_lineHappenings, hlater,
              List.append_nil]
      | happening h =>
          obtain ⟨hbench, hsame⟩ := happening_of_watching hstage h
          obtain ⟨hrun, hafter, hends, hverified⟩ := ih (hsame.trans hstage) hbegun htext
          refine ⟨?_, hafter, hends, ?_⟩
          · rw [happenings, Workbench.after_run, ← hbench]
            exact hrun
          · intro hall
            have hfirst : p.stirs (.happening h) = [h] := by simp only [stirs, hstage]
            have hnone := Happening.verified?_of_not_givesUp (hall h List.mem_cons_self)
            rw [happenings, List.filterMap_append, hfirst, List.filterMap_cons_none hnone]
            exact hverified (hgives hall)

/-- What happens in a run was asked for by a line, or happens of itself. -/
theorem mem_happenings {os : List Occurrence} {h : Happening} (hh : h ∈ p.happenings os) :
    .happening h ∈ os ∨ ∃ line, h ∈ lineHappenings line := by
  induction os generalizing p with
  | nil => cases hh
  | cons o os ih =>
      rcases List.mem_append.1 hh with hfirst | hrest
      · unfold stirs at hfirst
        split at hfirst
        · obtain ⟨line, -, hline⟩ := List.mem_flatMap.1 hfirst
          exact .inr ⟨line, hline⟩
        · exact .inr ⟨_, hfirst⟩
        · cases hfirst
        · rw [List.mem_singleton.1 hfirst]
          exact .inl List.mem_cons_self
        · cases hfirst
      · exact (ih hrest).imp (List.mem_cons_of_mem _) id

theorem shutdown_not_mem_happenings {os : List Occurrence}
    (hgives : ∀ h, .happening h ∈ os → h.givesUp = false) :
    .action .shutdown ∉ p.happenings os := by
  intro hmem
  rcases mem_happenings hmem with hown | ⟨line, hline⟩
  · cases hgives _ hown
  · obtain ⟨a, haction, hshutdown⟩ := List.mem_map.1 hline
    cases hshutdown
    obtain ⟨text, -, hasks⟩ := Option.bind_eq_some_iff.1 (Option.mem_toList.1 haction)
    unfold lineAction? at hasks
    split at hasks
    · cases hasks
    · split at hasks <;> cases hasks

/-! ## The exit code -/

theorem code?_of_not_reads (hp : p.Watches) (hreads : ¬ p.Reads) :
    p.code? =
      if p.bench.controller.activeSession.isSome then none else some (exitCode p.status) := by
  cases hstage : p.stage with
  | verifying file => simp [Watches, hstage] at hp
  | watching begun => exact absurd ⟨begun, hstage⟩ hreads
  | closing =>
      simp only [Watches, hstage] at hp
      simp [code?, hstage, hp]
  | «over» code =>
      simp only [Watches, hstage] at hp
      simp [code?, hstage, hp]

theorem exitCode_eq_zero_iff (status : Status) : exitCode status = 0 ↔ status = .success := by
  cases status <;> decide

end Program
end Console

namespace Workbench

theorem begins_exchanges (w : Workbench) (h : Happening) :
    ((w.exchanges h).filterMap Exchange.begins?).map Prod.snd = h.verified?.toList := by
  have hquiet : ∀ a : Action, (∀ path flags, a ≠ .verify path flags) →
      (w.exchanges (.action a)).filterMap Exchange.begins? = [] := by
    intro a ha
    refine List.filterMap_eq_nil_iff.2 ?_
    intro m hm
    refine Exchange.begins?_of_not_verify ?_
    intro s path flags hrequest
    have hmem : m ∈ w.history [.action a] := by simpa [history] using hm
    obtain ⟨before, later, hsplit, -⟩ := verify_of_mem_history hmem hrequest
    have hasked : Happening.action (.verify path flags) ∈ [.action a] := by
      rw [hsplit]
      exact List.mem_append_right _ List.mem_cons_self
    cases List.mem_singleton.1 hasked
    exact ha path flags rfl
  cases h with
  | deed n d => rfl
  | action a =>
      cases a with
      | verify path flags =>
          simp [exchanges, requests, Controller.course, Happening.verified?]
      | _ => rw [hquiet _ (by simp)]; rfl

/-- The files that are verified in a run are those for which a verification is begun. -/
theorem begins_history (w : Workbench) (hs : List Happening) :
    ((w.history hs).filterMap Exchange.begins?).map Prod.snd =
      hs.filterMap Happening.verified? := by
  induction hs generalizing w with
  | nil => rfl
  | cons h hs ih =>
      rw [history, List.filterMap_append, List.map_append, begins_exchanges, ih]
      cases hv : h.verified? <;> simp [hv]

theorem shutdown_of_mem_history {w : Workbench} {hs : List Happening} {m : Exchange}
    (hm : m ∈ w.history hs) (hrequest : m.request = .shutdown) : .action .shutdown ∈ hs := by
  induction hs generalizing w with
  | nil => cases hm
  | cons h hs ih =>
      rcases List.mem_append.1 hm with hfirst | hrest
      · cases h with
        | deed n d => cases hfirst
        | action a =>
            have hasked : Request.shutdown ∈ w.requests a := by
              rw [← hrequest, ← Controller.request_course w.controller (w.requests a)]
              exact List.mem_map_of_mem hfirst
            rcases givesUp_of_mem_requests hasked rfl with ⟨path, flags, rfl⟩ | rfl
            · cases List.mem_singleton.1 hasked
            · exact List.mem_cons_self
      · exact List.mem_cons_of_mem _ (ih hrest)

theorem told_of_verify (setup : Setup) (directory : Directory) (before later : List Happening)
    (path : Path) (flags : Flags) :
    let w := (opened setup directory).after before
    (opened setup directory).told w.controller.nextSession
        (before ++ .action (.verify path flags) :: later) =
      (w.act (.verify path flags)).1.told w.controller.nextSession later := by
  intro w
  have hbefore : ((opened setup directory).arrivals before).filter
      (fun e => e.session == w.controller.nextSession) = [] :=
    arrivals_filter_of_nextSession_le setup directory before (Nat.le_refl _)
  rw [told, arrivals_run, arrivals, arriving_action, List.nil_append, List.filter_append, hbefore]
  rfl

/--
Two runs with the same verification last, in the same directory, of which the same records and the
same end arrive: once nothing of it waits any more, both show the same.
-/
theorem view_of_last (setup : Setup) {directory directory' : Directory}
    {before before' later later' : List Happening} {path : Path} {flags : Flags}
    (hgives : ∀ h ∈ later, h.givesUp = false) (hgives' : ∀ h ∈ later', h.givesUp = false)
    (hdirectory : ((opened setup directory).after before).directory =
      ((opened setup directory').after before').directory) :
    let hs := before ++ .action (.verify path flags) :: later
    let hs' := before' ++ .action (.verify path flags) :: later'
    let told := (opened setup directory).told
      ((opened setup directory).after before).controller.nextSession hs
    let told' := (opened setup directory').told
      ((opened setup directory').after before').controller.nextSession hs'
    let w := (opened setup directory).after hs
    let w' := (opened setup directory').after hs'
    Controller.outline told = Controller.outline told' →
      w.CaughtUp → w'.CaughtUp → w.controller.view = w'.controller.view := by
  intro hs hs' told told' w w' htold hcaught hcaught'
  let w₁ := (opened setup directory).after before
  let w₂ := (opened setup directory').after before'
  have hsurroundings : w₁.setup.surroundings w₁.directory = w₂.setup.surroundings w₂.directory := by
    have hsetup : w₁.setup = setup := setup_after _ before
    have hsetup' : w₂.setup = setup := setup_after _ before'
    rw [hsetup, hsetup', hdirectory]
  obtain ⟨halike, -, -⟩ := w₁.controller.verify_alike w₂.controller
    (w₂.setup.surroundings w₂.directory) path flags
  have hcontroller := (verify_act path flags w₁).1
  rw [hsurroundings] at hcontroller
  rw [← hcontroller, ← (verify_act path flags w₂).1] at halike
  have hafter : w = (w₁.act (.verify path flags)).1.after later := after_run _ _ _
  have hafter' : w' = (w₂.act (.verify path flags)).1.after later' := after_run _ _ _
  have hsame : told = (w₁.act (.verify path flags)).1.told w₁.controller.nextSession later :=
    told_of_verify setup directory before later path flags
  have hsame' : told' = (w₂.act (.verify path flags)).1.told w₂.controller.nextSession later' :=
    told_of_verify setup directory' before' later' path flags
  rw [hafter] at hcaught ⊢
  rw [hafter'] at hcaught' ⊢
  rw [hsame, hsame'] at htold
  exact (sight_of_told halike hgives hgives'
    (justStarted_or_failed path flags (numbered setup directory before))
    (justStarted_or_failed path flags (numbered setup directory' before'))).2 htold hcaught hcaught'

end Workbench

namespace Console
namespace Program

/-! ## Steps of the program -/

section Attend

variable {p : Program}

theorem run_of_over {code : Nat} (hstage : p.stage = .over code) (os : List Occurrence) :
    p.run os = p ∧ p.happenings os = [] := by
  induction os with
  | nil => exact ⟨rfl, rfl⟩
  | cons o os ih =>
      obtain ⟨hsame, hstirs⟩ := undergo_of_over hstage o
      refine ⟨?_, ?_⟩
      · rw [run, List.foldl_cons, hsame]
        exact ih.1
      · rw [happenings, hstirs, hsame, List.nil_append]
        exact ih.2

/-- All that could happen happens, unless the program is over before. -/
theorem happenings_of_not_reads (hp : p.Watches) (hreads : ¬ p.Reads) (hs : List Happening) :
    ∃ rest, hs = p.happenings (hs.map .happening) ++ rest ∧
      (rest = [] ∨ (p.bench.after (p.happenings (hs.map .happening))).controller.activeSession =
        none) := by
  induction hs generalizing p with
  | nil => exact ⟨[], rfl, .inl rfl⟩
  | cons h hs ih =>
      cases hstage : p.stage with
      | verifying file => simp [Watches, hstage] at hp
      | watching begun => exact absurd ⟨begun, hstage⟩ hreads
      | closing =>
          obtain ⟨hbench, hwatches, hstays⟩ := happening_of_closing hstage h
          have hstirs : p.stirs (.happening h) = [h] := by simp only [stirs, hstage]
          obtain ⟨rest, hrest, hover⟩ := ih hwatches hstays
          refine ⟨rest, ?_, ?_⟩
          · rw [List.map_cons, happenings, hstirs, List.singleton_append, List.cons_append,
              ← hrest]
          · rw [List.map_cons, happenings, Workbench.after_run, ← hbench]
            exact hover
      | «over» code =>
          obtain ⟨-, hnone⟩ := run_of_over hstage ((h :: hs).map .happening)
          simp only [Watches, hstage] at hp
          rw [hnone]
          exact ⟨h :: hs, rfl, .inr hp.1⟩

/--
A step of a program that waits for the last verification is a run: it is over then, with the same
exit code, as if it had looked at its bench after everything that happens.
-/
theorem attend_code? (hp : p.Watches) (hreads : ¬ p.Reads) {a : Action}
    (ha : Happening.givesUp (.action a) = false) :
    ∃ before later, (∀ h ∈ before ++ later, h.isAttendant = true) ∧
      (p.attend a).code? =
        (p.run ((before ++ .action a :: later).map .happening)).code? := by
  obtain ⟨before, later, hattend, hafter, -⟩ := p.bench.step_run a true
  refine ⟨before, later, hattend, ?_⟩
  generalize hall : before ++ .action a :: later = hs at hafter ⊢
  have hgives : ∀ h ∈ hs, h.givesUp = false := by
    intro h hh
    rw [← hall] at hh
    rcases List.mem_append.1 hh with hbefore | hrest
    · exact Happening.givesUp_of_isAttendant (hattend h (List.mem_append_left _ hbefore))
    · rcases List.mem_cons.1 hrest with rfl | hlater
      · exact ha
      · exact Happening.givesUp_of_isAttendant (hattend h (List.mem_append_right _ hlater))
  cases hstage : p.stage with
  | verifying file => simp [Watches, hstage] at hp
  | watching begun => exact absurd ⟨begun, hstage⟩ hreads
  | «over» code =>
      rw [(run_of_over hstage _).1]
      simp only [attend, hstage]
  | closing =>
      obtain ⟨hbench, hwatches, hstays⟩ := advance_of_closing
        (p := p.note (p.bench.step a true).1 (p.bench.step a true).2.1) hstage
      obtain ⟨hrun, hwatches', hstays', -⟩ := run_of_not_reads hp hreads (hs.map .happening)
      obtain ⟨rest, hrest, hover⟩ := happenings_of_not_reads hp hreads hs
      have happened : p.attend a =
          (p.note (p.bench.step a true).1 (p.bench.step a true).2.1).advance := by
        simp only [attend, hstage]
      -- What does not happen any more would not concern a controller at which no session runs.
      have hcontroller : (p.bench.step a true).1.controller =
          (p.run (hs.map .happening)).bench.controller := by
        rw [hafter, hrun]
        nth_rewrite 1 [hrest]
        rw [Workbench.after_run]
        rcases hover with rfl | hinactive
        · rfl
        · refine (Workbench.attended_history_of_inactive ?_ hinactive).2
          intro h hh
          exact hgives h (hrest ▸ List.mem_append_right _ hh)
      rw [happened, code?_of_not_reads hwatches hstays, code?_of_not_reads hwatches' hstays',
        status, status, hbench, note_bench, hcontroller]

end Attend

/-- Nothing that concerns the program waits any more: it is over, or its queue is empty. -/
def Settled (p : Program) : Prop :=
  p.code?.isSome = true ∨ p.bench.queue.events = []

theorem caughtUp_of_settled {p : Program} (hp : p.Watches) (h : p.Settled) : p.bench.CaughtUp := by
  intro e he hactive
  rcases h with hover | hempty
  · cases hstage : p.stage with
    | «over» code =>
        simp only [Watches, hstage, hactive] at hp
        cases hp.1
    | _ => simp [code?, hstage] at hover
  · rw [hempty] at he
    cases he

theorem start_watching {e : Environment} {d : Directory} {args : List String}
    {config : Option Path} (hrequest : request args = .ok ⟨config, .watch⟩) :
    (start e d args).stage = .watching [] ∧
      (start e d args).bench = .opened (ofConfig e d config).bench.setup d := by
  have hstart : start e d args =
      { ((ofConfig e d config).perform .welcome).1 with stage := .watching [] } := by
    simp only [start, hrequest]
  rw [hstart]
  exact ⟨rfl, rfl⟩

theorem run_of_start {e : Environment} {d : Directory} {args : List String}
    {config : Option Path} (hrequest : request args = .ok ⟨config, .watch⟩)
    {os : List Occurrence} (htext : ∀ line ∈ Occurrence.lines os, IsText line) :
    ((start e d args).run os).bench =
        (Workbench.opened (ofConfig e d config).bench.setup d).after
          ((start e d args).happenings os) ∧
      ((start e d args).run os).Watches ∧
      (Occurrence.ends os = true → ¬ ((start e d args).run os).Reads) ∧
      ((∀ h, .happening h ∈ os → h.givesUp = false) →
        ((start e d args).happenings os).filterMap Happening.verified? =
          sources (Occurrence.lines os)) := by
  obtain ⟨hstage, hbench⟩ := start_watching (e := e) (d := d) hrequest
  rw [← hbench]
  exact run_of_watching hstage (by simp) htext

/-- Once no lines are taken, the exit code is the verdict on the last verification. -/
theorem code?_of_concluded {p : Program} {ms : List Exchange} (hp : p.Watches)
    (hreads : ¬ p.Reads) (hms : p.bench.controller.Concluded ms)
    (hagrees : p.bench.controller.Agrees) :
    let begun := ms.filterMap Exchange.begins?
    (begun = [] → p.code? = some 1) ∧
      (∀ n path, begun.getLast? = some (n, path) →
        p.code? = (Exchange.verdictOn n ms).map exitCode) ∧
      (p.code? = some 0 ↔ ∃ n path, begun.getLast? = some (n, path) ∧
        Exchange.verdictOn n ms = some .success) := by
  intro begun
  have hlast : begun.getLast? = p.bench.controller.shown := hms.last
  have hnone : begun = [] → p.code? = some 1 := by
    intro hbegun
    rw [hbegun] at hlast
    have hidle : p.bench.controller.phase = .idle := by
      cases hphase : p.bench.controller.phase with
      | idle => rfl
      | active v document => simp [Controller.shown, Controller.current, hphase] at hlast
      | finished v => simp [Controller.shown, Controller.current, hphase] at hlast
    have hstatus : p.status = .idle := hagrees.idle_iff.1 hidle
    rw [code?_of_not_reads hp hreads, hstatus]
    simp [Controller.activeSession, hidle, exitCode]
  have hsome : ∀ n path, begun.getLast? = some (n, path) →
      p.code? = (Exchange.verdictOn n ms).map exitCode := by
    intro n path hbegun
    rw [code?_of_not_reads hp hreads, hms.verdict n path (hlast ▸ hbegun)]
    split <;> rfl
  refine ⟨hnone, hsome, ?_⟩
  cases hbegun : begun.getLast? with
  | none => simp [hnone (List.getLast?_eq_none_iff.1 hbegun)]
  | some last =>
      obtain ⟨n, path⟩ := last
      rw [hsome n path hbegun, Option.map_eq_some_iff]
      constructor
      · rintro ⟨status, hverdict, hcode⟩
        exact ⟨n, path, rfl, hverdict.trans (congrArg some ((exitCode_eq_zero_iff status).1 hcode))⟩
      · rintro ⟨n', path', hsame, hverdict⟩
        cases hsame
        exact ⟨.success, hverdict, rfl⟩

/-- Programs that show the same are over with the same exit code, or both are not over. -/
theorem code?_of_view {p p' : Program} (hp : p.Watches) (hp' : p'.Watches) (hreads : ¬ p.Reads)
    (hreads' : ¬ p'.Reads) (hview : p.bench.controller.view = p'.bench.controller.view) :
    p.code? = p'.code? := by
  have hrunning : p.bench.controller.activeSession.isSome =
      p'.bench.controller.activeSession.isSome := congrArg View.running hview
  have hstatus : p.status = p'.status := congrArg (fun view => view.frame.status) hview
  rw [code?_of_not_reads hp hreads, code?_of_not_reads hp' hreads', hrunning, hstatus]

/--
The exit code of a program that watches.  Whatever pieces its input arrives in, and whatever
happens on its bench in between, as long as every line is text and nobody interrupts:

* the files for which a verification is begun are those that the lines name, in order;
* once the input has ended, the program is over as soon as the last verification has its verdict,
  at once if none was begun, and the exit code is zero just if the verdict is a success;
* a blank line changes nothing, and one that names another file is told of and changes nothing else;
* in another run, on files of its own, with other lines and other happenings before the last
  verification, the exit code is the same, if the files are the same when it begins and the same
  records and the same end of it arrive.
-/
theorem watching_exits_with_last (e : Environment) (d : Directory) (args : List String)
    (config : Option Path) (hrequest : request args = .ok ⟨config, .watch⟩) (os : List Occurrence)
    (hgives : ∀ h, .happening h ∈ os → h.givesUp = false)
    (htext : ∀ line ∈ Occurrence.lines os, IsText line) :
    let setup := (ofConfig e d config).bench.setup
    let p := (start e d args).run os
    let hs := (start e d args).happenings os
    let ms := (Workbench.opened setup d).history hs
    let begun := ms.filterMap Exchange.begins?
    (p.bench = (Workbench.opened setup d).after hs ∧
      begun.map Prod.snd = sources (Occurrence.lines os)) ∧
    (Occurrence.ends os = true →
      (begun = [] → p.code? = some 1) ∧
      (∀ n path, begun.getLast? = some (n, path) →
        p.code? = (Exchange.verdictOn n ms).map exitCode) ∧
      (p.code? = some 0 ↔ ∃ n path, begun.getLast? = some (n, path) ∧
        Exchange.verdictOn n ms = some .success)) ∧
    (∀ (q : Program) (line : String),
      (Text.trimmed line = "" → q.takeLine line = q) ∧
      (Text.trimmed line ≠ "" → source? line = none → q.takeLine line =
        { q with printed := q.printed ++ ("warn: " ++ skipText ⟨Text.trimmed line⟩ ++ "\n") })) ∧
    ∀ (d' : Directory) (args' : List String) (os' : List Occurrence),
      request args' = .ok ⟨config, .watch⟩ → (∀ line ∈ Occurrence.lines os', IsText line) →
      Occurrence.ends os = true → Occurrence.ends os' = true →
      ∀ path before later before' later',
        hs = before ++ .action (.verify path .configured) :: later →
        (start e d' args').happenings os' =
          before' ++ .action (.verify path .configured) :: later' →
        (∀ h ∈ later, h.givesUp = false) → (∀ h ∈ later', h.givesUp = false) →
        ((Workbench.opened setup d).after before).directory =
          ((Workbench.opened setup d').after before').directory →
        Controller.outline ((Workbench.opened setup d).told
            ((Workbench.opened setup d).after before).controller.nextSession hs) =
          Controller.outline ((Workbench.opened setup d').told
            ((Workbench.opened setup d').after before').controller.nextSession
              ((start e d' args').happenings os')) →
        p.Settled → ((start e d' args').run os').Settled →
        p.code? = ((start e d' args').run os').code? := by
  intro setup p hs ms begun
  obtain ⟨hrun, hwatches, hreads, hsources⟩ := run_of_start hrequest htext
  have hbench : p.bench = (Workbench.opened setup d).after hs := hrun
  have hhistory : History ms p.bench.controller := by
    rw [hbench]
    exact Workbench.history_history setup d hs
  have hconcluded : p.bench.controller.Concluded ms := by
    refine hhistory.concluded ?_
    intro m hm hshutdown
    exact shutdown_not_mem_happenings hgives (Workbench.shutdown_of_mem_history hm hshutdown)
  refine ⟨⟨hbench, (Workbench.begins_history _ hs).trans (hsources hgives)⟩, ?_, ?_, ?_⟩
  · intro hends
    exact code?_of_concluded hwatches (hreads hends) hconcluded hhistory.agrees
  · intro q line
    exact ⟨q.takeLine_of_blank, q.takeLine_of_other⟩
  · intro d' args' os' hrequest' htext' hends hends' path before later before' later'
      hsplit hsplit' hlater hlater' hdirectory htold hsettled hsettled'
    obtain ⟨hbench', hwatches', hreads', -⟩ := run_of_start (e := e) (d := d') hrequest' htext'
    have hcaught := caughtUp_of_settled hwatches hsettled
    have hcaught' := caughtUp_of_settled hwatches' hsettled'
    refine code?_of_view hwatches hwatches' (hreads hends) (hreads' hends') ?_
    rw [hbench, hsplit] at hcaught
    rw [hbench', hsplit'] at hcaught'
    rw [hsplit, hsplit'] at htold
    rw [hbench, hbench', hsplit, hsplit']
    exact Workbench.view_of_last setup hlater hlater' hdirectory htold hcaught hcaught'

/-- Where the programs that a verification needs are found. -/
def sampleEnvironment : Environment where
  home := ⟨"home"⟩
  bundle := some ⟨"bundle"⟩
  search := [⟨"/bin"⟩]

/-- A directory with these programs, the verifier, and a document. -/
def sampleDirectory : Directory where
  entries :=
    [(["a.hhl"], .file []), (["bundle"], .directory), (["bundle", "hhl.jar"], .file []),
      (["/", "bin"], .directory), (["/", "bin", "java"], .program),
      (["/", "bin", "z3"], .program), (["/", "bin", "boogie"], .program)]

/--
The document is named, and its verifier fails; before that is told of, another file and the document
again are named, and the input ends in between.
-/
def watchedRun : List Occurrence :=
  [.input (Text.Utf8.bytes " a.hh"), .input (Text.Utf8.bytes "l\r\n"),
    .happening (.action (.finish (.exited 1))), .input (Text.Utf8.bytes "\nb.txt\na.hhl"),
    .endOfInput, .happening (.action (.finish (.exited 0)))] ++
  (Workbench.readOn 1 1 ++ Workbench.readOn 2 1).map .happening ++
  [.happening (.action (.poll 1)), .happening (.action (.poll 1))]

theorem code_of_watchedRun :
    let p := (start sampleEnvironment sampleDirectory ["watch"]).run watchedRun
    let setup := (ofConfig sampleEnvironment sampleDirectory none).bench.setup
    let ms := (Workbench.opened setup sampleDirectory).history
      ((start sampleEnvironment sampleDirectory ["watch"]).happenings watchedRun)
    (p.code? = some 0 ↔ ∃ n path, (ms.filterMap Exchange.begins?).getLast? = some (n, path) ∧
        Exchange.verdictOn n ms = some .success) ∧
      ms.filterMap Exchange.begins? = [(1, ⟨"a.hhl"⟩), (2, ⟨"a.hhl"⟩)] ∧
      p.printed = "warn: Skipping \"b.txt\": not a Hypra source file.\n" ++
        "info: Verification of \"a.hhl\" succeeded.\n" ∧
      p.code? = some 0 := by
  intro p setup ms
  have hgives : ∀ h, .happening h ∈ watchedRun → h.givesUp = false := by
    have hall : ∀ o ∈ watchedRun, ∀ h, o = .happening h → h.givesUp = false := by
      simp [watchedRun, Workbench.readOn, Deed.own, Happening.givesUp]
    intro h hh
    exact hall _ hh h rfl
  have htext : ∀ line ∈ Occurrence.lines watchedRun, IsText line := by decide +kernel
  obtain ⟨-, hcode, -⟩ := watching_exits_with_last sampleEnvironment sampleDirectory ["watch"] none
    (by decide +kernel) watchedRun hgives htext
  exact ⟨(hcode (by decide)).2.2, by decide +kernel, by decide +kernel, by decide +kernel⟩

end Program
end Console
end VerifierSession
