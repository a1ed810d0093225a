import VerifierSession.Proofs.Attention
import VerifierSession.Proofs.Findings
import VerifierSession.Proofs.Renumbering

/-!
# Verifications do not depend on what came before

Whatever happened on two benches before, a verification goes the same way on both if they are set up
in the same way and their directories are the same.  The benches may count sessions differently, and
one of them may have hovers to dispose of first; nothing else differs.

* `Controller.verify_alike`: two controllers asked for the same verification;
* `Controller.sight_eq_of_alike`: controllers that are the same but for numbers, asked for the same;
* `Workbench.verification_forgets_past`: two runs, and whatever follows the verification in them.
-/

namespace VerifierSession

/-- The outcome of a verification that was asked for: what went wrong, or what was run. -/
def Reply.outcome? : Reply → Option (Except StartFailure Invocation)
  | .started _ command _ => some (.ok command)
  | .failed failure _ => some (.error failure)
  | _ => none

namespace Controller

/-- The calls that take the hovers off the host, if there are any. -/
def disposal (c : Controller) : List HostCall :=
  if c.hoversRegistered then [.disposeHovers] else []

/-- Two controllers are the same but for numbers, if one counts from where the other one does. -/
def Alike (n₁ n₂ r₁ r₂ : Nat) (c₁ c₂ : Controller) : Prop :=
  c₁.shift n₂ r₂ = c₂.shift n₁ r₁

/--
Two controllers that are asked for the same verification: they come to be the same but for numbers,
and make the same calls, after one or the other has disposed of hovers.
-/
theorem verify_alike (c₁ c₂ : Controller) (s : Surroundings) (path : Path) (flags : Flags) :
    Alike c₁.nextSession c₂.nextSession c₁.indicator.revision c₂.indicator.revision
        (c₁.verify s path flags).controller (c₂.verify s path flags).controller ∧
      (c₁.verify s path flags).result.map Prod.snd =
        (c₂.verify s path flags).result.map Prod.snd ∧
      ∃ calls, (c₁.verify s path flags).calls = c₁.disposal ++ calls ∧
        (c₂.verify s path flags).calls = c₂.disposal ++ calls := by
  -- Hovers come first among the calls, and nothing after them looks at the controller.
  obtain ⟨begun, hopening⟩ : ∃ begun, ∀ c : Controller, c.opening path = c.disposal ++ begun :=
    ⟨_, fun c => List.append_assoc _ _ _⟩
  -- Nothing of the two controllers is left but their numbers, each added to the other.
  have hset := Indicator.shift_set c₁.indicator c₂.indicator .running
  have hsession : c₁.nextSession + c₂.nextSession = c₂.nextSession + c₁.nextSession :=
    Nat.add_comm _ _
  have hnext : c₁.nextSession + 1 + c₂.nextSession = c₂.nextSession + 1 + c₁.nextSession := by omega
  cases h : prepare s path flags with
  | mk calls result =>
      cases result with
      | error failure =>
          rw [verify_of_error c₁ h, verify_of_error c₂ h]
          refine ⟨?_, rfl, ?_⟩
          · simp only [Alike, shift, Phase.shift, Verification.shift, ← Indicator.set_shift, hset,
              hsession, hnext]
          · refine ⟨begun ++ calls ++ failureCalls s.location failure, ?_, ?_⟩
            · simp only [hopening, List.append_assoc]
            · simp only [hopening, List.append_assoc]
      | ok found =>
          rw [verify_of_ok c₁ h, verify_of_ok c₂ h]
          refine ⟨?_, rfl, ?_⟩
          · simp only [Alike, shift, Phase.shift, Verification.shift, hset, hsession, hnext]
          · refine ⟨begun ++ calls, ?_, ?_⟩
            · simp only [hopening, List.append_assoc]
            · simp only [hopening, List.append_assoc]

theorem map_shift_take (n₁ n₂ : Nat) (heard : List ProcessOutput) :
    (heard.map fun output => Request.take ⟨n₁, output⟩).map (Request.shift n₂) =
      (heard.map fun output => Request.take ⟨n₂, output⟩).map (Request.shift n₁) := by
  have hsession : n₁ + n₂ = n₂ + n₁ := Nat.add_comm _ _
  simp only [List.map_map, Function.comp_def, Request.shift, Event.shift, hsession]

section Alike

variable {n₁ n₂ r₁ r₂ : Nat} {c₁ c₂ : Controller} (h : Alike n₁ n₂ r₁ r₂ c₁ c₂)
include h

theorem view_eq_of_alike : c₁.view = c₂.view := by
  rw [← c₁.view_shift n₂ r₂, h, view_shift]

/-- Asked for the same, but for numbers, they are seen to do the same. -/
theorem sight_eq_of_alike {rs₁ rs₂ : List Request}
    (hrs : rs₁.map (Request.shift n₂) = rs₂.map (Request.shift n₁)) :
    (c₁.course rs₁).map Exchange.sight = (c₂.course rs₂).map Exchange.sight ∧
      Alike n₁ n₂ r₁ r₂ (c₁.after rs₁) (c₂.after rs₂) := by
  have hsight : ∀ k r (ms : List Exchange),
      (ms.map (Exchange.shift k r)).map Exchange.sight = ms.map Exchange.sight := by
    intro k r ms
    rw [List.map_map]
    exact List.map_congr_left fun m _ => m.sight_shift k r
  obtain ⟨hcourse₁, hafter₁⟩ := c₁.course_shift n₂ r₂ rs₁
  obtain ⟨hcourse₂, hafter₂⟩ := c₂.course_shift n₁ r₁ rs₂
  have hc : c₁.shift n₂ r₂ = c₂.shift n₁ r₁ := h
  refine ⟨?_, ?_⟩
  · calc
      (c₁.course rs₁).map Exchange.sight
          = ((c₁.shift n₂ r₂).course (rs₁.map (Request.shift n₂))).map Exchange.sight := by
            rw [hcourse₁, hsight]
      _ = ((c₂.shift n₁ r₁).course (rs₂.map (Request.shift n₁))).map Exchange.sight := by
            rw [hc, hrs]
      _ = (c₂.course rs₂).map Exchange.sight := by
            rw [hcourse₂, hsight]
  · rw [Alike, ← hafter₁, ← hafter₂, hc, hrs]

/-- Told the same, one of them maybe more, they are seen to do the same, one of them maybe more. -/
theorem sight_prefix_of_alike {heard₁ heard₂ : List ProcessOutput} (hheard : heard₁ <+: heard₂) :
    (c₁.course (heard₁.map fun output => .take ⟨n₁, output⟩)).map Exchange.sight <+:
      (c₂.course (heard₂.map fun output => .take ⟨n₂, output⟩)).map Exchange.sight := by
  obtain ⟨more, rfl⟩ := hheard
  rw [List.map_append, course_append, List.map_append,
    (sight_eq_of_alike h (map_shift_take n₁ n₂ heard₁)).1]
  exact List.prefix_append _ _

end Alike
end Controller

namespace Workbench

/-! ## Asking for a verification -/

section Verify

variable {w : Workbench} (path : Path) (flags : Flags)

theorem verify_act (w : Workbench) :
    let start := w.controller.verify (w.setup.surroundings w.directory) path flags
    (w.act (.verify path flags)).1.controller = start.controller ∧
      (w.act (.verify path flags)).2.1 = start.calls ∧
      (w.act (.verify path flags)).2.2.outcome? = some (start.result.map Prod.snd) := by
  intro start
  simp only [act, verify]
  split
  · next failure h =>
      have hresult : start.result = .error failure := h
      rw [hresult]
      exact ⟨rfl, rfl, rfl⟩
  · next n command h =>
      have hresult : start.result = .ok (n, command) := h
      rw [hresult]
      exact ⟨rfl, rfl, rfl⟩

/-- A verification is started with a process of its own, or it fails. -/
theorem justStarted_or_failed (hw : w.Numbered) :
    (w.act (.verify path flags)).1.JustStarted w.controller.nextSession ∨
      (w.act (.verify path flags)).1.controller.activeSession = none := by
  cases hlaunched : w.launched (.action (.verify path flags)) with
  | nil =>
      right
      rw [(verify_act path flags w).1]
      rcases (w.controller.verify_cases (w.setup.surroundings w.directory) path flags).2 with
        ⟨failure, -, hphase⟩ | ⟨document, command, hresult, -⟩
      · simp [Controller.activeSession, hphase]
      · simp [launched, hresult] at hlaunched
  | cons child rest =>
      left
      obtain ⟨rfl, -, hactive⟩ :=
        session_of_mem_launched (hlaunched ▸ List.mem_cons_self : child ∈ w.launched _)
      refine ⟨hw.befall (.action (.verify path flags)), ?_, hactive, ?_⟩
      · rw [children_act, hlaunched]
        exact List.mem_cons_self
      · -- Whatever waits is of sessions that were begun before.
        intro e he
        have hmem : e ∈ w.queue.events := by
          have hfifo := taken_append_queue_befall hw (.action (.verify path flags))
          rw [arriving_action, List.append_nil] at hfifo
          rw [← hfifo]
          exact List.mem_append_right _ he
        exact Nat.ne_of_lt (hw.queue e hmem)

end Verify

/-! ## After a verification -/

section After

variable {w₁ w₂ : Workbench} {n₁ n₂ r₁ r₂ : Nat}
  (h : Controller.Alike n₁ n₂ r₁ r₂ w₁.controller w₂.controller) {later₁ later₂ : List Happening}
include h

/-- Benches whose controllers are alike go on in the same way if they are asked for the same. -/
theorem sight_eq_of_effective
    (hrequests : (Exchange.effective (w₁.history later₁)).map (fun m => m.request.shift n₂) =
      (Exchange.effective (w₂.history later₂)).map fun m => m.request.shift n₁) :
    (Exchange.effective (w₁.history later₁)).map Exchange.sight =
        (Exchange.effective (w₂.history later₂)).map Exchange.sight ∧
      w₁.calls later₁ = w₂.calls later₂ ∧
      (w₁.after later₁).controller.view = (w₂.after later₂).controller.view := by
  have heffective : ∀ (w : Workbench) (hs : List Happening),
      Exchange.effective (w.history hs) =
          w.controller.course ((Exchange.effective (w.history hs)).map Exchange.request) ∧
        (w.after hs).controller =
          w.controller.after ((Exchange.effective (w.history hs)).map Exchange.request) := by
    intro w hs
    obtain ⟨hcourse, hafter⟩ := w.history_eq_course hs
    have heffective := w.controller.effective_course ((w.history hs).map Exchange.request)
    rw [← hcourse] at heffective
    exact ⟨heffective.1, hafter.trans heffective.2⟩
  obtain ⟨hcourse₁, hafter₁⟩ := heffective w₁ later₁
  obtain ⟨hcourse₂, hafter₂⟩ := heffective w₂ later₂
  have hshift : ((Exchange.effective (w₁.history later₁)).map Exchange.request).map
        (Request.shift n₂) =
      ((Exchange.effective (w₂.history later₂)).map Exchange.request).map (Request.shift n₁) := by
    rw [List.map_map, List.map_map]
    exact hrequests
  obtain ⟨hsights, halike⟩ := Controller.sight_eq_of_alike h hshift
  rw [← hcourse₁, ← hcourse₂] at hsights
  rw [← hafter₁, ← hafter₂] at halike
  refine ⟨hsights, ?_, Controller.view_eq_of_alike halike⟩
  -- The calls of a run are among what is seen of its effective exchanges.
  have hcalls : ∀ ms : List Exchange,
      ms.flatMap Exchange.calls = (ms.map Exchange.sight).flatMap Sight.calls := by
    intro ms
    rw [List.flatMap_map]
    rfl
  have heffectiveCalls : ∀ (w : Workbench) (hs : List Happening),
      w.calls hs = (Exchange.effective (w.history hs)).flatMap Exchange.calls := by
    intro w hs
    rw [calls_eq, Exchange.calls_effective]
  rw [heffectiveCalls, heffectiveCalls, hcalls, hcalls, hsights]

/--
Where the new sessions are not given up, they are seen to do the same, one of them maybe more, if
they are told the same; complaints make no difference to what they show.
-/
theorem sight_of_told
    (hgives₁ : ∀ happening ∈ later₁, happening.givesUp = false)
    (hgives₂ : ∀ happening ∈ later₂, happening.givesUp = false)
    (hstart₁ : w₁.JustStarted n₁ ∨ w₁.controller.activeSession = none)
    (hstart₂ : w₂.JustStarted n₂ ∨ w₂.controller.activeSession = none) :
    let sights₁ := (Exchange.attended (w₁.history later₁)).map Exchange.sight
    let sights₂ := (Exchange.attended (w₂.history later₂)).map Exchange.sight
    let told₁ := w₁.told n₁ later₁
    let told₂ := w₂.told n₂ later₂
    (told₁ = told₂ → (sights₁ <+: sights₂ ∨ sights₂ <+: sights₁) ∧
      ((w₁.after later₁).CaughtUp → (w₂.after later₂).CaughtUp → sights₁ = sights₂)) ∧
      (Controller.outline told₁ = Controller.outline told₂ →
        (w₁.after later₁).CaughtUp → (w₂.after later₂).CaughtUp →
          (w₁.after later₁).controller.view = (w₂.after later₂).controller.view) := by
  intro sights₁ sights₂ told₁ told₂
  have hview := Controller.view_eq_of_alike h
  have hrunning : w₁.controller.activeSession.isSome = w₂.controller.activeSession.isSome :=
    congrArg View.running hview
  rcases hstart₁ with hnew₁ | hfailed₁
  · rcases hstart₂ with hnew₂ | hfailed₂
    · obtain ⟨heard₁, hbegins₁, hall₁, hcourse₁, hafter₁⟩ := hnew₁.attended_history hgives₁
      obtain ⟨heard₂, hbegins₂, hall₂, hcourse₂, hafter₂⟩ := hnew₂.attended_history hgives₂
      refine ⟨fun htold => ⟨?_, ?_⟩, ?_⟩
      · -- What both sessions attended to is a beginning of the same.
        simp only [sights₁, sights₂, hcourse₁, hcourse₂]
        have hbegins : heard₁ <+: told₂ := htold ▸ hbegins₁
        rcases List.prefix_or_prefix_of_prefix hbegins hbegins₂ with hmore₂ | hmore₁
        · exact .inl (Controller.sight_prefix_of_alike h hmore₂)
        · exact .inr (Controller.sight_prefix_of_alike h.symm hmore₁)
      · intro hcaught₁ hcaught₂
        have hsame : heard₁ = heard₂ := (hall₁ hcaught₁).trans (htold.trans (hall₂ hcaught₂).symm)
        simp only [sights₁, sights₂, hcourse₁, hcourse₂, ← hsame]
        exact (Controller.sight_eq_of_alike h (Controller.map_shift_take n₁ n₂ heard₁)).1
      · intro houtline hcaught₁ hcaught₂
        rw [hafter₁, hafter₂, hall₁ hcaught₁, hall₂ hcaught₂, Controller.after_outline,
          Controller.after_outline w₂.controller]
        change Controller.outline (w₁.told n₁ later₁) = Controller.outline (w₂.told n₂ later₂)
          at houtline
        rw [houtline]
        exact Controller.view_eq_of_alike
          (Controller.sight_eq_of_alike h (Controller.map_shift_take n₁ n₂ _)).2
    · rw [hnew₁.active, hfailed₂] at hrunning
      cases hrunning
  · have hfailed₂ : w₂.controller.activeSession = none := by simpa [hfailed₁] using hrunning.symm
    -- Neither was started, so nothing is attended to.
    obtain ⟨hattended₁, hsame₁⟩ := attended_history_of_inactive hgives₁ hfailed₁
    obtain ⟨hattended₂, hsame₂⟩ := attended_history_of_inactive hgives₂ hfailed₂
    have hsights₁ : sights₁ = [] := by simp [sights₁, hattended₁]
    have hsights₂ : sights₂ = [] := by simp [sights₂, hattended₂]
    rw [hsights₁, hsights₂, hsame₁, hsame₂]
    exact ⟨fun _ => ⟨.inl (List.prefix_refl _), fun _ _ => rfl⟩, fun _ _ _ => hview⟩

end After

/--
A verification does not depend on what happened before it.  Take any two runs on benches that are
set up in the same way, and ask for the same verification after both, in the same directory.  Then
it has the same outcome, makes the same calls but for a leading one that disposes of hovers, and
shows the same.  Whatever follows, if from then on both controllers are asked for the same, with
sessions counted from the new one and stale events left out, then the calls, what is shown and the
verdicts are the same.  If the new session is not given up and the same events of it arrive, then so
is what it is seen to do, as far as its events were taken: one of them may be ahead until all are.
What is shown in the end is the same even if only the records and the end are.  Whatever else is
taken or asked for then changes nothing, and makes no calls but those that are asked for.
-/
theorem verification_forgets_past (setup : Setup) (directory₁ directory₂ : Directory)
    (hs₁ hs₂ : List Happening) (path : Path) (flags : Flags)
    (hdirectory : ((opened setup directory₁).after hs₁).directory =
      ((opened setup directory₂).after hs₂).directory) :
    let w₁ := (opened setup directory₁).after hs₁
    let w₂ := (opened setup directory₂).after hs₂
    let start := Action.verify path flags
    ((w₁.act start).2.2.outcome? = (w₂.act start).2.2.outcome? ∧
      (∃ calls, (w₁.act start).2.1 = w₁.controller.disposal ++ calls ∧
        (w₂.act start).2.1 = w₂.controller.disposal ++ calls) ∧
      (w₁.act start).1.controller.view = (w₂.act start).1.controller.view) ∧
    (∀ later₁ later₂,
      let ms₁ := Exchange.effective ((w₁.act start).1.history later₁)
      let ms₂ := Exchange.effective ((w₂.act start).1.history later₂)
      ms₁.map (fun m => m.request.shift w₂.controller.nextSession) =
        ms₂.map (fun m => m.request.shift w₁.controller.nextSession) →
      ms₁.map Exchange.sight = ms₂.map Exchange.sight ∧
        (w₁.act start).1.calls later₁ = (w₂.act start).1.calls later₂ ∧
        ((w₁.act start).1.after later₁).controller.view =
          ((w₂.act start).1.after later₂).controller.view) ∧
    ∀ later₁ later₂, (∀ happening ∈ later₁, happening.givesUp = false) →
      (∀ happening ∈ later₂, happening.givesUp = false) →
      let told₁ := (w₁.act start).1.told w₁.controller.nextSession later₁
      let told₂ := (w₂.act start).1.told w₂.controller.nextSession later₂
      let sights₁ := (Exchange.attended ((w₁.act start).1.history later₁)).map Exchange.sight
      let sights₂ := (Exchange.attended ((w₂.act start).1.history later₂)).map Exchange.sight
      (told₁ = told₂ → (sights₁ <+: sights₂ ∨ sights₂ <+: sights₁) ∧
        (((w₁.act start).1.after later₁).CaughtUp → ((w₂.act start).1.after later₂).CaughtUp →
          sights₁ = sights₂)) ∧
        (Controller.outline told₁ = Controller.outline told₂ →
          ((w₁.act start).1.after later₁).CaughtUp → ((w₂.act start).1.after later₂).CaughtUp →
            ((w₁.act start).1.after later₁).controller.view =
              ((w₂.act start).1.after later₂).controller.view) ∧
        ∀ m ∈ (w₁.act start).1.history later₁ ++ (w₂.act start).1.history later₂,
          m.attends = false → m.after = m.before ∧ (m.request.isAside = false → m.calls = []) := by
  intro w₁ w₂ start
  -- The setup stays, and the directories are the same: so is what is verified, and with what.
  have hsurroundings : w₁.setup.surroundings w₁.directory = w₂.setup.surroundings w₂.directory := by
    have hsetup₁ : w₁.setup = setup := setup_after _ hs₁
    have hsetup₂ : w₂.setup = setup := setup_after _ hs₂
    rw [hsetup₁, hsetup₂, hdirectory]
  obtain ⟨hcontroller₁, hcalls₁, houtcome₁⟩ := verify_act path flags w₁
  obtain ⟨hcontroller₂, hcalls₂, houtcome₂⟩ := verify_act path flags w₂
  rw [hsurroundings] at hcontroller₁ hcalls₁ houtcome₁
  obtain ⟨halike, hresult, calls, hdisposed₁, hdisposed₂⟩ := w₁.controller.verify_alike
    w₂.controller (w₂.setup.surroundings w₂.directory) path flags
  rw [← hcontroller₁, ← hcontroller₂] at halike
  refine ⟨⟨?_, ⟨calls, ?_, ?_⟩, Controller.view_eq_of_alike halike⟩, ?_, ?_⟩
  · rw [houtcome₁, houtcome₂, hresult]
  · rw [hcalls₁, hdisposed₁]
  · rw [hcalls₂, hdisposed₂]
  · intro later₁ later₂ ms₁ ms₂ hrequests
    exact sight_eq_of_effective halike hrequests
  · intro later₁ later₂ hgives₁ hgives₂ told₁ told₂ sights₁ sights₂
    obtain ⟨hsights, hviews⟩ := sight_of_told halike hgives₁ hgives₂
      (justStarted_or_failed path flags (numbered setup directory₁ hs₁))
      (justStarted_or_failed path flags (numbered setup directory₂ hs₂))
    refine ⟨hsights, hviews, ?_⟩
    intro m hm
    apply Exchange.unchanged_of_not_attends
    rcases List.mem_append.1 hm with hm₁ | hm₂
    · exact request_of_history hgives₁ _ (List.mem_map_of_mem hm₁)
    · exact request_of_history hgives₂ _ (List.mem_map_of_mem hm₂)

/--
A run that leaves hovers on the host, and in the queue a complaint of a session that was given up
before.
-/
def usedRun : List Happening :=
  [verifySample, .action (.complain (Text.Utf8.bytes "late\n"))] ++ mixedOn 2 ++
    [.action (.store ⟨"a.hhl"⟩ []), .action (.finish (.exited 1))] ++ readOn 2 2 ++
    [.action .drain, .deed 1 (.on .complaints .read), .deed 1 (.on .complaints .send)]

/-- A verifier that tells of an error and exits. -/
def failingRun (session : Nat) : List Happening :=
  [.action (.write (Text.Utf8.bytes "JSON-ERS-\x7b\"descr\":\"no memory\"\x7d\n")),
    .action (.finish (.exited 0))] ++ readOn session 2 ++ [.action .drain]

def sampleStart (w : Workbench) : Workbench × List HostCall × Reply :=
  w.act (.verify ⟨"a.hhl"⟩ .configured)

theorem usedRun_is_forgotten :
    let used := sampleStart (sample.after usedRun)
    let fresh := sampleStart sample
    (sample.after usedRun).queue.events = [⟨1, .complaint "late"⟩] ∧
      used.2.1 = .disposeHovers :: fresh.2.1 ∧
      used.1.controller.view = fresh.1.controller.view ∧
      (Exchange.attended (used.1.history (failingRun 3))).map Exchange.sight =
        (Exchange.attended (fresh.1.history (failingRun 1))).map Exchange.sight ∧
      (used.1.after (failingRun 3)).controller.view =
        (fresh.1.after (failingRun 1)).controller.view := by
  dsimp only
  -- The same events arrive of both sessions, and all of them are taken.
  obtain ⟨hdirectory, hwaiting, hhovers, htold, hnone⟩ :
      (sample.after usedRun).directory = sample.directory ∧
        (sample.after usedRun).queue.events = [⟨1, .complaint "late"⟩] ∧
        (sample.after usedRun).controller.hoversRegistered = true ∧
        (sampleStart (sample.after usedRun)).1.told
            (sample.after usedRun).controller.nextSession (failingRun 3) =
          (sampleStart sample).1.told sample.controller.nextSession (failingRun 1) ∧
        ((sampleStart (sample.after usedRun)).1.after (failingRun 3)).queue.events = [] := by
    decide +kernel
  obtain ⟨⟨-, ⟨calls, hused, hfresh⟩, hview⟩, -, hlater⟩ := verification_forgets_past sampleSetup
    sampleDirectory sampleDirectory usedRun [] ⟨"a.hhl"⟩ .configured hdirectory
  have hsample : opened sampleSetup sampleDirectory = sample := rfl
  have hstart : ∀ w : Workbench, w.act (.verify ⟨"a.hhl"⟩ .configured) = sampleStart w :=
    fun _ => rfl
  simp only [hsample, hstart, after] at hused hfresh hview hlater
  have hgives : ∀ n, ∀ happening ∈ failingRun n, happening.givesUp = false := by
    intro n
    simp [failingRun, readOn, Deed.own, Happening.givesUp]
  have hcaught : ∀ w : Workbench, w.queue.events = [] → w.CaughtUp := by
    intro w hnone
    simp [CaughtUp, hnone]
  have hcaught₁ := hcaught _ hnone
  have hcaught₂ := hcaught ((sampleStart sample).1.after (failingRun 1)) (by decide +kernel)
  obtain ⟨hsights, hviews, -⟩ := hlater (failingRun 3) (failingRun 1) (hgives 3) (hgives 1)
  refine ⟨hwaiting, ?_, hview, ?_, ?_⟩
  · have hnew : sample.controller.disposal = [] := rfl
    have hdispose : (sample.after usedRun).controller.disposal = [.disposeHovers] := by
      simp only [Controller.disposal, hhovers, if_true]
    rw [hused, hfresh, hdispose, hnew]
    rfl
  · exact (hsights htold).2 hcaught₁ hcaught₂
  · exact hviews (congrArg Controller.outline htold) hcaught₁ hcaught₂

end Workbench
end VerifierSession
