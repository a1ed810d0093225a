import VerifierSession.Console.Arguments
import VerifierSession.Console.Excerpt
import VerifierSession.Framing.Line
import VerifierSession.Text.Blank
import VerifierSession.Workbench

/-!
# The command-line program

The program verifies one file, verifies every file that is named on its input, or checks that
nothing is missing.

* `Program.start` begins what a command line asks for, `Program.feed` gives it input,
  `Program.attend` lets its verifier do something, and `Program.close` ends the input;
* `Program.stage` is what it waits for, and its exit code once it is over.
-/

namespace VerifierSession
namespace Console

structure Environment where
  home : Path
  bundle : Option Path := none
  search : List Path := []
  deriving DecidableEq, Repr

def Environment.bundleDirectory (e : Environment) : Path :=
  (Path.nonEmpty? e.bundle).getD (e.home.join ⟨".local/share/hypra"⟩)

/-- The configuration file that is read if no other is asked for. -/
def Environment.configFile (e : Environment) : Path :=
  e.home.join ⟨".hypra/config.toml"⟩

inductive Stage where
  | verifying (file : Path)
  | watching (begun : List UInt8)
  | closing
  | over (code : Nat)
  deriving DecidableEq, Repr

/-- The program: its bench, what it prints, and the command it ran last. -/
structure Program where
  bench : Workbench
  stage : Stage
  opened : Opened := none
  printed : String := ""
  command : Option Invocation := none

def exitCode (status : Status) : Nat :=
  if status = .success then 0 else 1

namespace Program

def commandOf : Reply → Option Invocation
  | .started _ command _ => some command
  | _ => none

/-- Prints what the bench led to, which is as given now. -/
def note (p : Program) (bench : Workbench) (calls : List HostCall) : Program :=
  let (opened, text) := showCalls (bench.setup.openText bench.directory) p.opened calls
  { p with bench, opened, printed := p.printed ++ text }

/-- Acts on the bench and prints what it leads to. -/
def perform (p : Program) (action : Action) : Program × Reply :=
  let (bench, calls, reply) := p.bench.act action
  ({ p.note bench calls with command := (commandOf reply).or p.command }, reply)

def status (p : Program) : Status :=
  p.bench.controller.status

def print (p : Program) (line : String) : Program :=
  { p with printed := p.printed ++ line ++ "\n" }

def exit (p : Program) (code : Nat) : Program :=
  { p with stage := .over code }

/-- The line that sums up a verified file, if there is anything to tell. -/
def summarize (p : Program) (file : Path) : Program :=
  let summary := p.bench.controller.record.summary
  if summary.isEmpty then p else p.print (file.text ++ ": " ++ summary)

/-- Goes on when a verification that was waited for is no longer running. -/
def advance (p : Program) : Program :=
  if p.bench.controller.activeSession.isSome then p
  else
    match p.stage with
    | .verifying file => (p.summarize file).exit (exitCode p.status)
    | .closing => p.exit (exitCode p.status)
    | _ => p

def verify (p : Program) (file : Path) (args : List String) : Program :=
  let flags := if args.isEmpty then Flags.configured else .custom args
  match p.perform (.verify file flags) with
  | (p, .failed ..) => p.exit 1
  | (p, _) => { p with stage := .verifying file }.advance

def check (p : Program) : Program :=
  match p.perform .check with
  | (p, .checked true) => (p.print "All prerequisites found.").exit 0
  | (p, _) => p.exit 1

def ofConfig (e : Environment) (d : Directory) (config : Option Path) : Program where
  bench :=
    { directory := d
      setup :=
        { source := .file (config.getD e.configFile)
          search := e.search
          bundle := e.bundleDirectory
          encoding := .utf32 } }
  stage := .closing

def start (e : Environment) (d : Directory) (args : List String) : Program :=
  match request args with
  | .error .help => (ofConfig e d none).exit 0
  | .error .misuse => (ofConfig e d none).exit 2
  | .ok ⟨config, .verify file args⟩ => (ofConfig e d config).verify file args
  | .ok ⟨config, .watch⟩ => { ((ofConfig e d config).perform .welcome).1 with stage := .watching [] }
  | .ok ⟨config, .check⟩ => (ofConfig e d config).check

/-- The notification about a line that names no program to verify. -/
def skipText (path : Path) : String :=
  "Skipping \"" ++ path.text ++ "\": not a Hypra source file."

/-- Takes a line of input: it names a file to verify, unless it is blank. -/
def takeLine (p : Program) (line : String) : Program :=
  let name := Text.trimmed line
  if name.isEmpty then p
  else if isVerifierSource ⟨name⟩ then (p.perform (.verify ⟨name⟩ .configured)).1
  else (p.perform (.notify .warn (skipText ⟨name⟩))).1

/-- Takes a line of input in bytes; one that is no text ends the program. -/
def takeBytes (p : Program) (line : List UInt8) : Program :=
  match p.stage with
  | .watching _ =>
      match Text.Utf8.text? line with
      | some text => p.takeLine (String.ofList text)
      | none => p.exit 1
  | _ => p

def keep (p : Program) (begun : List UInt8) : Program :=
  match p.stage with
  | .watching _ => { p with stage := .watching begun }
  | _ => p

def feed (p : Program) (bytes : List UInt8) : Program :=
  match p.stage with
  | .watching begun =>
      let (lines, tail) := Framing.cut (begun ++ bytes)
      (lines.foldl takeBytes p).keep tail
  | _ => p

/-- Ends the input: a line that has begun is taken, and the last verification may finish. -/
def close (p : Program) : Program :=
  match p.stage with
  | .watching [] => { p with stage := .closing }.advance
  | .watching begun =>
      let p := p.takeBytes begun
      match p.stage with
      | .watching _ => { p with stage := .closing }.advance
      | _ => p
  | _ => p

/-- Lets the verifier do something, and takes all events, unless the program is over. -/
def attend (p : Program) (action : Action) : Program :=
  match p.stage with
  | .over _ => p
  | _ =>
      let (bench, calls, _) := p.bench.step action true
      (p.note bench calls).advance

/-- The exit code, once the program is over. -/
def code? (p : Program) : Option Nat :=
  match p.stage with
  | .over code => some code
  | _ => none

end Program
end Console
end VerifierSession
