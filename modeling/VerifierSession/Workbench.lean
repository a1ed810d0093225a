import VerifierSession.ConfigSource
import VerifierSession.Session.Controller
import VerifierSession.Supervision.Child
import VerifierSession.Supervision.Queue

/-!
# The workbench

A controller at work: in a directory, with the verifier processes it started and the queue of events
between them.

* `Workbench.act` is one action of a user or a process, with the calls to the host it leads to and
  the answer to who acted;
* `Workbench.deed` is something that befalls one of the processes, or that its readers do: what they
  hand in waits in the queue until a user polls, or the bench is drained;
* `Workbench.step` is an action after which the readers go on as far as they can.
-/

namespace VerifierSession

/-- How programs that are not configured are found. -/
inductive Lookup where
  | searchPath
  | table (paths : List (String × Path))
  deriving DecidableEq, Repr

/-- What does not change while a bench is in use. -/
structure Setup where
  source : ConfigSource := .fixed {}
  lookup : Lookup := .searchPath
  search : List Path := []
  bundle : Path
  encoding : Encoding := .utf16
  deriving DecidableEq, Repr

def Setup.find (s : Setup) (d : Directory) (name : String) : Option Path :=
  match s.lookup with
  | .searchPath => d.search s.search name
  | .table paths => paths.lookup name

def Setup.openText (s : Setup) (d : Directory) (path : Path) : Except String Snapshot :=
  match d.readText path with
  | .ok chars => .ok ⟨chars, s.encoding⟩
  | .error obstacle => .error obstacle.message

def Setup.launch (s : Setup) (d : Directory) (program : Path) : Except StartFailure Unit :=
  match d.launch s.search program with
  | .ok () => .ok ()
  | .error .missing => .error (.programMissing program)
  | .error obstacle => .error (.programUnusable program obstacle.message)

/-- What a verification depends on, in a directory. -/
def Setup.surroundings (s : Setup) (d : Directory) : Surroundings where
  config := s.source.snapshot d
  location := s.source.location
  bundle := s.bundle
  find := s.find d
  isFile := d.isFile
  openText := s.openText d
  launch := s.launch d

/-- A controller, the processes it started with the last in front, its queue and its directory. -/
structure Workbench where
  setup : Setup
  directory : Directory
  controller : Controller := {}
  children : List Child := []
  queue : Queue := {}
  deriving DecidableEq, Repr

inductive Action where
  | verify (path : Path) (flags : Flags)
  | write (bytes : List UInt8)
  | complain (bytes : List UInt8)
  | finish (termination : Termination)
  | hold
  | release
  | abandon
  | poll (budget : Nat)
  | drain
  | complete
  | shutdown
  | welcome
  | check
  | notify (level : LogLevel) (message : String)
  | store (path : Path) (bytes : List UInt8)
  | delete (path : Path)
  | inspect
  deriving DecidableEq, Repr

inductive Reply where
  | done
  | started (session : Nat) (command : Invocation) (killed : Option Nat)
  | failed (failure : StartFailure) (killed : Option Nat)
  | stopped (killed : Option Nat)
  | handled (count : Nat)
  | status (status : Status)
  | checked (hasRequisites : Bool)
  | findings (diagnostics : List Diagnostic)
  deriving DecidableEq, Repr

namespace Workbench

/-! ## Processes -/

/-- The processes after deeds to that of a session, and what is heard of them. -/
def processes (w : Workbench) (session : Nat) (ds : List Deed) : List Child × List Event :=
  (w.children.map fun c => (c.undergoAll (if c.session = session then ds else [])).1,
    w.children.flatMap fun c => (c.undergoAll (if c.session = session then ds else [])).2)

/-- Deeds to the process of a session; what is heard of them goes to the queue. -/
def stir (w : Workbench) (session : Nat) (ds : List Deed) : Workbench :=
  let (children, events) := w.processes session ds
  { w with children, queue := w.queue.push events }

/-- A deed to the process of a session; something can be handed in only if there is room. -/
def deed (w : Workbench) (session : Nat) (d : Deed) : Workbench :=
  if d.hands && w.queue.room == 0 then w else w.stir session [d]

/-- What an action does to a process, and of which session that is. -/
def affected (w : Workbench) (action : Action) : Option (Nat × List Deed) :=
  let last := w.children.head?.map Child.session
  match action with
  | .write bytes => last.map fun n => (n, [.on .records (.write bytes)])
  | .complain bytes => last.map fun n => (n, [.on .complaints (.write bytes)])
  | .finish termination => last.map fun n => (n, [.finish termination])
  | .hold => last.map fun n => (n, [.on .records .hold, .on .complaints .hold])
  | .release => last.map fun n => (n, [.on .records .release, .on .complaints .release])
  | .abandon => last.map fun n => (n, [.on .records .abandon, .on .complaints .abandon])
  -- A session that is given up has its process killed; who holds the pipes is left alone.
  | .verify .. | .shutdown => w.controller.activeSession.map fun n => (n, [.finish .signaled])
  | _ => none

def touch (w : Workbench) (action : Action) : Workbench :=
  match w.affected action with
  | some (session, ds) => w.stir session ds
  | none => w

/-- The session that is running, if its process has not ended. -/
def runningSession (w : Workbench) : Option Nat :=
  w.controller.activeSession.filter fun session =>
    w.children.any fun child => child.session == session && child.isRunning

/-! ## Events -/

def drain (w : Workbench) : Workbench × List HostCall :=
  let (controller, calls) := w.controller.takeList w.queue.events
  ({ w with controller, queue := {} }, calls)

/-- Takes events, up to a number; answers how many. -/
def poll (w : Workbench) (budget : Nat) : Workbench × List HostCall × Nat :=
  let (events, queue) := w.queue.take budget
  let (controller, calls) := w.controller.takeList events
  ({ w with controller, queue }, calls, events.length)

def complete (w : Workbench) : Workbench × List HostCall :=
  let (controller, calls, left) := w.controller.takeWhileActive w.queue.events
  let queue := (w.queue.take (w.queue.events.length - left.length))
  ({ w with controller, queue := queue.2 }, calls)

/-! ## Actions -/

def verify (w : Workbench) (path : Path) (flags : Flags) : Workbench × List HostCall × Reply :=
  let start := w.controller.verify (w.setup.surroundings w.directory) path flags
  let touched := { w.touch (.verify path flags) with controller := start.controller }
  match start.result with
  | .error failure => (touched, start.calls, .failed failure w.runningSession)
  | .ok (session, command) =>
      ({ touched with children := { session } :: touched.children }, start.calls,
        .started session command w.runningSession)

def shutdown (w : Workbench) : Workbench × List HostCall × Reply :=
  let (controller, calls) := w.controller.shutdown
  ({ w.touch .shutdown with controller }, calls, .stopped w.runningSession)

/-- One action: the bench afterwards, the calls to the host and the answer. -/
def act (w : Workbench) (action : Action) : Workbench × List HostCall × Reply :=
  match action with
  | .verify path flags => w.verify path flags
  | .shutdown => w.shutdown
  | .write _ | .complain _ | .finish _ | .hold | .release => (w.touch action, [], .done)
  | .abandon =>
      let (w, calls) := (w.touch action).complete
      (w, calls, .status w.controller.status)
  | .complete =>
      let (w, calls) := w.complete
      (w, calls, .status w.controller.status)
  | .poll budget =>
      let (w, calls, count) := w.poll budget
      (w, calls, .handled count)
  | .drain =>
      let (w, calls) := w.drain
      (w, calls, .done)
  | .welcome => (w, Controller.welcome, .done)
  | .check =>
      let s := w.setup.surroundings w.directory
      (w, Controller.missingCalls s, .checked (Controller.hasRequisites s))
  | .notify level message => (w, [.notify level message], .done)
  | .store path bytes => ({ w with directory := w.directory.add path (.file bytes) }, [], .done)
  | .delete path => ({ w with directory := w.directory.remove path }, [], .done)
  | .inspect => (w, [], .findings w.controller.record.diagnostics)

/-! ## Readers that go on -/

def work (w : Workbench) : Nat :=
  Child.workAll w.children

/--
What is done next of itself, if anything is: at the process that was started first, and by its
reader of records before the others.  Where nobody is admitted, nothing is handed in.
-/
def next? (w : Workbench) (admits : Bool) : Option (Child × Deed) :=
  (w.children.reverse.flatMap fun c => Deed.own.map fun d => (c, d)).find? fun (c, d) =>
    c.isDue d && (!d.hands || (admits && w.queue.room != 0))

theorem next?_some {w : Workbench} {admits : Bool} {c : Child} {d : Deed}
    (h : w.next? admits = some (c, d)) :
    c ∈ w.children ∧ d ∈ Deed.own ∧ c.isDue d = true ∧
      (d.hands && w.queue.room == 0) = false := by
  have hmem := List.mem_of_find?_eq_some h
  have hdue := List.find?_some h
  simp only [List.mem_flatMap, List.mem_reverse, List.mem_map, Prod.mk.injEq] at hmem
  obtain ⟨c', hchild, d', hown, rfl, rfl⟩ := hmem
  simp only [Bool.and_eq_true, Bool.or_eq_true, Bool.not_eq_true', bne_iff_ne] at hdue
  refine ⟨hchild, hown, hdue.1, ?_⟩
  rcases hdue.2 with hquiet | ⟨-, hroom⟩
  · rw [hquiet, Bool.false_and]
  · rw [beq_eq_false_iff_ne.2 hroom, Bool.and_false]

theorem work_processes_le (w : Workbench) (n : Nat) {d : Deed} (hd : d ∈ Deed.own) :
    Child.workAll (w.processes n [d]).1 + (w.processes n [d]).2.length ≤ w.work := by
  simp only [processes, work]
  induction w.children with
  | nil => exact Nat.le_refl _
  | cons c children ih =>
      simp only [List.map_cons, List.flatMap_cons, Child.workAll, List.length_append]
      split
      · simp only [Child.undergoAll, List.append_nil]
        cases hdue : c.isDue d with
        | true =>
            have hless := (Child.work_undergo_lt hdue).2
            omega
        | false =>
            simp only [Child.undergo_of_not_isDue hd hdue, List.length_nil]
            omega
      · simp only [Child.undergoAll, List.length_nil]
        omega

theorem work_processes_lt {w : Workbench} {c : Child} {d : Deed} (hc : c ∈ w.children)
    (hd : d ∈ Deed.own) (hdue : c.isDue d = true) :
    Child.workAll (w.processes c.session [d]).1 < w.work := by
  obtain ⟨before, later, hchildren⟩ := List.append_of_mem hc
  have hbefore := work_processes_le { w with children := before } c.session hd
  have hlater := work_processes_le { w with children := later } c.session hd
  have hless := (Child.work_undergo_lt hdue).1
  simp only [processes, work, hchildren, List.map_append, List.map_cons, Child.workAll_append,
    Child.workAll, if_true, Child.undergoAll] at hbefore hlater ⊢
  omega

theorem work_next? {w : Workbench} {admits : Bool} {c : Child} {d : Deed}
    (h : w.next? admits = some (c, d)) :
    (w.deed c.session d).work < w.work ∧
      (w.deed c.session d).work + (w.deed c.session d).queue.events.length ≤
        w.work + w.queue.events.length := by
  obtain ⟨hchild, hown, hdue, hroom⟩ := next?_some h
  have hless := work_processes_lt hchild hown hdue
  have hheard := w.work_processes_le c.session hown
  have hpush := w.queue.length_push_le (w.processes c.session [d]).2
  simp only [deed, hroom, Bool.false_eq_true, if_false, stir]
  refine ⟨hless, ?_⟩
  simp only [work] at hheard ⊢
  omega

/-- The readers go on as far as they can. -/
def settle (w : Workbench) (admits : Bool) : Workbench :=
  match h : w.next? admits with
  | some (c, d) =>
      have := (work_next? h).1
      (w.deed c.session d).settle admits
  | none => w
termination_by w.work

theorem work_settle (w : Workbench) (admits : Bool) :
    (w.settle admits).work + (w.settle admits).queue.events.length ≤
      w.work + w.queue.events.length := by
  fun_induction settle w admits with
  | case1 w c d h _ ih => exact Nat.le_trans ih (work_next? h).2
  | case2 => exact Nat.le_refl _

/-- Takes all events, or those that come while a verification is running. -/
def takeMore (w : Workbench) (running : Bool) : Workbench × List HostCall :=
  if running then w.complete else w.drain

/-- Whether there is no event to take, or none that is waited for. -/
def isDone (w : Workbench) (running : Bool) : Bool :=
  w.queue.events.isEmpty || (running && w.controller.activeSession.isNone)

theorem length_takeMore_lt {w : Workbench} {running : Bool} (h : w.isDone running = false) :
    (w.takeMore running).1.queue.events.length < w.queue.events.length := by
  simp only [isDone, Bool.or_eq_false_iff, List.isEmpty_eq_false_iff] at h
  obtain ⟨hsome, hactive⟩ := h
  have hpos : 0 < w.queue.events.length := List.length_pos_iff.2 hsome
  simp only [takeMore]
  split
  · next hrunning =>
      have hleft := Controller.length_left_lt (c := w.controller) hsome
        (by simpa [hrunning] using hactive)
      have hkept : w.complete.1.queue.events = w.queue.events.drop
          (w.queue.events.length - (w.controller.takeWhileActive w.queue.events).2.2.length) := rfl
      rw [hkept, List.length_drop]
      omega
  · exact hpos

/-- The readers go on, and events are taken, as far as that goes. -/
def exhaust (w : Workbench) (running : Bool) : Workbench × List HostCall :=
  if (w.settle true).isDone running then (w.settle true, [])
  else
    let (left, calls) := ((w.settle true).takeMore running).1.exhaust running
    (left, ((w.settle true).takeMore running).2 ++ calls)
termination_by w.work + w.queue.events.length
decreasing_by
  next hmore =>
    have hless := length_takeMore_lt (Bool.not_eq_true _ ▸ hmore)
    have hsettled := w.work_settle true
    have hsame : ((w.settle true).takeMore running).1.work = (w.settle true).work := by
      simp only [takeMore]
      split <;> rfl
    omega

/-! ## Steps -/

def isBlocked (w : Workbench) : Bool :=
  w.children.any fun c => c.records.pending.isSome || c.complaints.pending.isSome

/-- Whether readers that waited already get to hand something in after an action. -/
def Action.admits : Action → Bool
  | .write _ | .complain _ => true
  | _ => false

/-- An action; whoever holds the pipes of a process whose session it gives up ends with that. -/
def actAlone (w : Workbench) (action : Action) : Workbench × List HostCall × Reply :=
  let (acted, calls, reply) := w.act action
  match action, w.controller.activeSession with
  | .verify .., some n | .shutdown, some n =>
      (acted.stir n [.on .records .release, .on .complaints .release], calls, reply)
  | _, _ => (acted, calls, reply)

/-- An action after which the readers go on, and then all events are taken if they are wanted. -/
def step (w : Workbench) (action : Action) (drained : Bool) :
    Workbench × List HostCall × Reply :=
  match action with
  -- Who polls takes what waits: the readers do not get to go on.
  | .poll _ => w.act action
  | .drain =>
      let (left, calls) := w.exhaust false
      (left, calls, .done)
  | .complete | .abandon =>
      let (waiting, before) := w.exhaust true
      let (acted, calls, _) := waiting.act action
      let (ended, after) := acted.exhaust true
      let (left, rest) := if drained then ended.exhaust false else (ended, [])
      (left, before ++ calls ++ after ++ rest, .status ended.controller.status)
  | _ =>
      let (acted, calls, reply) := w.actAlone action
      let settled := acted.settle (Action.admits action || !w.isBlocked)
      let (left, rest) := if drained then settled.exhaust false else (settled, [])
      (left, calls ++ rest, reply)

end Workbench
end VerifierSession
