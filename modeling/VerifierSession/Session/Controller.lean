import VerifierSession.Indicator
import VerifierSession.Invocation
import VerifierSession.Session.Record
import VerifierSession.Supervision.Event

/-!
# The session controller

The controller runs one verification at a time.  Starting one kills the one that is running and
clears what it left on the host; from then on only events of the new session count.

* `Controller.verify` starts a verification, `Controller.take` takes an event, and
  `Controller.shutdown` puts everything back;
* each answers with the controller afterwards and the calls to the host, and says which process
  is to be killed.
-/

namespace VerifierSession

/-- A verification: its session, its program and what was gathered. -/
structure Verification where
  session : Nat
  path : Path
  record : SessionRecord := {}
  deriving DecidableEq, Repr

/-- Where the controller stands; a running verification has the document it began with. -/
inductive Phase where
  | idle
  | active (v : Verification) (document : Snapshot)
  | finished (v : Verification)
  deriving DecidableEq, Repr

structure Controller where
  phase : Phase := .idle
  indicator : Indicator := {}
  nextSession : Nat := 1
  hoversRegistered : Bool := false
  deriving DecidableEq, Repr

/-- What a verification depends on at the moment it is started. -/
structure Surroundings where
  config : Config
  location : Option Path
  bundle : Path
  find : String → Option Path
  isFile : Path → Bool
  openText : Path → Except String Snapshot
  launch : Path → Except StartFailure Unit

structure Start where
  controller : Controller
  calls : List HostCall
  killed : Option Nat
  result : Except StartFailure (Nat × Invocation)

def dependencyNote : String :=
  "This application relies on:\n- Java 17.*\n- Boogie 2.15.8.0\n- z3 4.8.14\n" ++
    "Using other versions is possible, but not recommended and happens at the risk of the user."

namespace Controller

/-! ## What can be seen -/

def status (c : Controller) : Status :=
  c.indicator.status

def activeSession (c : Controller) : Option Nat :=
  match c.phase with
  | .active v _ => some v.session
  | _ => none

/-- The verification that is running, or the last one. -/
def current (c : Controller) : Option Verification :=
  match c.phase with
  | .idle => none
  | .active v _ => some v
  | .finished v => some v

/-- What was gathered for the verification that is running, or the last one. -/
def record (c : Controller) : SessionRecord :=
  (c.current.map Verification.record).getD {}

/-! ## Starting a verification -/

/-- The calls that take the marks off the host. -/
def clearing (c : Controller) : List HostCall :=
  (if c.hoversRegistered then [.disposeHovers] else []) ++ [.clearDecorations]

/-- Where the configuration is, and what it should lead to. -/
def configHint (location : Option Path) : List HostCall :=
  (match location with
    | some path => [.log .info ("Hypra settings are read from " ++ path.text ++ ".")]
    | none => []) ++ [.log .info dependencyNote]

def failureCalls (location : Option Path) (failure : StartFailure) : List HostCall :=
  [.notify .error failure.summary, .log .error failure.message] ++
    if failure.isConfiguration then configHint location else []

/-- Everything up to the running process: its document and command, or what went wrong. -/
def prepare (s : Surroundings) (path : Path) (flags : Flags) :
    List HostCall × Except StartFailure (Snapshot × Invocation) :=
  match resolveToolchain s.config s.find s.isFile s.bundle with
  | .error failure => ([], .error failure)
  | .ok toolchain =>
      match s.openText path with
      | .error reason => ([.openDocument path], .error (.document path reason))
      | .ok document =>
          let command := invocation s.config toolchain path flags
          let calls := [.openDocument path, .log .debug ("Running " ++ command.text)]
          match s.launch command.program with
          | .error failure => (calls, .error failure)
          | .ok () => (calls, .ok (document, command))

/-- Starts a verification in the place of the one that is running. -/
def verify (c : Controller) (s : Surroundings) (path : Path) (flags : Flags) : Start :=
  let opening :=
    c.clearing ++
      [.clearLog, .log .info ("Starting verification of \"" ++ path.text ++ "\".")]
  let running := c.indicator.set .running
  let v : Verification := { session := c.nextSession, path }
  match prepare s path flags with
  | (calls, .error failure) =>
      { controller := ⟨.finished v, running.set .failed, c.nextSession + 1, false⟩
        calls := opening ++ calls ++ failureCalls s.location failure
        killed := c.activeSession
        result := .error failure }
  | (calls, .ok (document, command)) =>
      { controller := ⟨.active v document, running, c.nextSession + 1, false⟩
        calls := opening ++ calls
        killed := c.activeSession
        result := .ok (c.nextSession, command) }

/-! ## Taking events -/

def complaintNotice : String :=
  "An unexpected error occurred during verification. " ++
    "More information can be found in the verification log."

/-- How many errors there were, in words. -/
def failureText (errors : Nat) : String :=
  match errors with
  | 0 => "Verification failed."
  | 1 => "Verification failed with 1 error."
  | n => "Verification failed with " ++ toString n ++ " errors."

/-- The verdict on a verification whose process has ended. -/
def verdict (v : Verification) (termination : Termination) : Status × LogLevel × String :=
  if !termination.isClean then
    (.failed, .error, "Verification finished with " ++ termination.text ++ ".")
  else if v.record.errorsOccurred then
    (.failed, .error, failureText v.record.diagnostics.length)
  else (.success, .info, "Verification of \"" ++ v.path.text ++ "\" succeeded.")

def verdictHovers (v : Verification) (status : Status) : List Hover :=
  if status = .failed then v.record.hovers else []

def annotating (path : Path) (hovers : List Hover) : List HostCall :=
  if hovers.isEmpty then []
  else [.decorate path (hovers.map Hover.span), .hover path hovers]

def finish (c : Controller) (v : Verification) (termination : Termination) :
    Controller × List HostCall :=
  let (status, level, message) := verdict v termination
  let hovers := verdictHovers v status
  ({ c with
      phase := .finished v
      indicator := c.indicator.set status
      hoversRegistered := c.hoversRegistered || !hovers.isEmpty },
    annotating v.path hovers ++ HostCall.broadcast level message)

/-- Takes what is heard of the process of the running verification. -/
def takeOutput (c : Controller) (v : Verification) (document : Snapshot) :
    ProcessOutput → Controller × List HostCall
  | .record line =>
      let (record, calls) := v.record.take document v.path line
      ({ c with phase := .active { v with record } document }, calls)
  | .complaint chunk => (c, [.notify .error complaintNotice, .log .error chunk])
  | .ended termination => c.finish v termination

/-- Takes an event; one of another session than the running one is dropped. -/
def take (c : Controller) (e : Event) : Controller × List HostCall :=
  match c.phase with
  | .active v document =>
      if e.session = v.session then c.takeOutput v document e.output else (c, [])
  | _ => (c, [])

def takeList (c : Controller) (events : List Event) : Controller × List HostCall :=
  match events with
  | [] => (c, [])
  | e :: events =>
      let (c, calls) := c.take e
      let (c, more) := c.takeList events
      (c, calls ++ more)

/-- Takes events in order while a verification is running; the others are left. -/
def takeWhileActive (c : Controller) (events : List Event) :
    Controller × List HostCall × List Event :=
  match events with
  | [] => (c, [], [])
  | e :: events =>
      match c.activeSession with
      | none => (c, [], e :: events)
      | some _ =>
          let (c, calls) := c.take e
          let (c, more, left) := c.takeWhileActive events
          (c, calls ++ more, left)

theorem length_left_le (c : Controller) (events : List Event) :
    (c.takeWhileActive events).2.2.length ≤ events.length := by
  induction events generalizing c with
  | nil => exact Nat.le_refl _
  | cons e events ih =>
      rw [takeWhileActive]
      split
      · exact Nat.le_refl _
      · exact Nat.le_succ_of_le (ih (c.take e).1)

theorem length_left_lt {c : Controller} {events : List Event} (hsome : events ≠ [])
    (hactive : c.activeSession.isSome) :
    (c.takeWhileActive events).2.2.length < events.length := by
  obtain ⟨e, rest, rfl⟩ := List.exists_cons_of_ne_nil hsome
  obtain ⟨session, hsession⟩ := Option.isSome_iff_exists.1 hactive
  rw [takeWhileActive, hsession]
  exact Nat.lt_succ_of_le ((c.take e).1.length_left_le rest)

/-! ## Other requests -/

/-- Gives up the running verification and clears the host. -/
def shutdown (c : Controller) : Controller × List HostCall :=
  ({ c with phase := .idle, indicator := c.indicator.set .idle, hoversRegistered := false },
    c.clearing)

def welcome : List HostCall :=
  [.log .info
      ("Hypra verifies hyperproperties of programs written in the Hyper Hoare Logic language."),
   .log .info dependencyNote]

def missingCalls (s : Surroundings) : List HostCall :=
  let missing := missingRequisites s.config s.find
  (missing.flatMap fun r => HostCall.broadcast .error (StartFailure.missingBinary r).message) ++
    if missing.isEmpty then [] else configHint s.location

def hasRequisites (s : Surroundings) : Bool :=
  (missingRequisites s.config s.find).isEmpty

end Controller
end VerifierSession
