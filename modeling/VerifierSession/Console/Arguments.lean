import VerifierSession.Path

/-!
# Command lines

`verify FILE` with any number of `--arg ARG`, `watch`, or `check`; the option `--config PATH` may
stand before the command or behind it, once in each place, and the later one counts.

* an option's value is the next word, or stands behind an equals sign; only the value of `--arg`
  may look like an option itself;
* behind `--` everything is a word;
* words are read from left to right, and the first that is out of place decides.
-/

namespace VerifierSession
namespace Console

inductive Command where
  | verify (file : Path) (args : List String)
  | watch
  | check
  deriving DecidableEq, Repr

/-- A command, and the configuration file to use. -/
structure Request where
  config : Option Path
  command : Command
  deriving DecidableEq, Repr

/-- Why there is no request. -/
inductive Refusal where
  | help
  | misuse
  deriving DecidableEq, Repr

inductive Word where
  | escape
  | long (name : String) (value : Option String)
  | short (flags : List Char)
  | plain
  deriving DecidableEq, Repr

def Word.of (s : String) : Word :=
  match s.toList with
  | ['-', '-'] => .escape
  | '-' :: '-' :: rest =>
      .long (String.ofList (rest.takeWhile (· != '=')))
        (match rest.dropWhile (· != '=') with
          | [] => none
          | _ :: value => some (String.ofList value))
  | '-' :: c :: rest => .short (c :: rest)
  | _ => .plain

/-- What has been read so far: options, and the words that are no options. -/
structure Reading where
  config : Option Path := none
  file : Option Path := none
  args : List String := []
  deriving DecidableEq, Repr

/-- An option that waits for its value. -/
inductive Waiting where
  | config
  | arg
  deriving DecidableEq, Repr

/-- A path as a value; it cannot be empty. -/
def pathValue (s : String) : Except Refusal Path :=
  if s.isEmpty then .error .misuse else .ok ⟨s⟩

namespace Reading

/-- Sets the configuration file, once. -/
def setConfig (r : Reading) (value : String) : Except Refusal Reading := do
  if r.config.isSome then throw .misuse
  return { r with config := some (← pathValue value) }

/-- Sets the program to verify, once, where one is asked for. -/
def setFile (takesFile : Bool) (r : Reading) (value : String) : Except Refusal Reading := do
  if r.file.isSome || !takesFile then throw .misuse
  return { r with file := some (← pathValue value) }

def addArg (r : Reading) (value : String) : Reading :=
  { r with args := r.args ++ [value] }

/-- A word where an option may stand: what was read after it, and what waits for a value. -/
def option (takesFile : Bool) (r : Reading) (name : String) (value : Option String) :
    Except Refusal (Reading × Option Waiting) :=
  match value with
  | none =>
      if name = "help" then .error .help
      else if name = "config" then .ok (r, some .config)
      else if takesFile ∧ name = "arg" then .ok (r, some .arg)
      else .error .misuse
  | some value =>
      if name = "config" then (r.setConfig value).map (·, none)
      else if takesFile ∧ name = "arg" then .ok (r.addArg value, none)
      else .error .misuse

end Reading

/-- The refusal that short flags lead to: the only one there is asks for help. -/
def shortRefusal (flags : List Char) : Refusal :=
  if flags.head? = some 'h' then .help else .misuse

/-- Gives a word to the option that waits for it. -/
def supply (r : Reading) (waiting : Waiting) (word : String) : Except Refusal Reading :=
  match waiting with
  | .arg => .ok (r.addArg word)
  | .config => if Word.of word = .plain then r.setConfig word else .error .misuse

def readWords (takesFile escaped : Bool) (waiting : Option Waiting) (r : Reading) :
    List String → Except Refusal Reading
  | [] => if waiting.isSome then .error .misuse else .ok r
  | word :: rest =>
      match waiting with
      | some option => do
          let r ← supply r option word
          readWords takesFile escaped none r rest
      | none =>
          if escaped then do
            let r ← r.setFile takesFile word
            readWords takesFile true none r rest
          else
            match Word.of word with
            | .escape => readWords takesFile true none r rest
            | .long name value => do
                let (r, waiting) ← r.option takesFile name value
                readWords takesFile false waiting r rest
            | .short flags => .error (shortRefusal flags)
            | .plain => do
                let r ← r.setFile takesFile word
                readWords takesFile false none r rest

/-- Whether the words behind `help` name a command, or none. -/
def asksHelp : List String → Bool
  | [] => true
  | [name] => ["verify", "watch", "check", "help"].contains name
  | _ => false

def readCommand (config : Option Path) (name : String) (rest : List String) :
    Except Refusal Request := do
  if name = "verify" then
    let r ← readWords true false none {} rest
    match r.file with
    | some file => return ⟨r.config.or config, .verify file r.args⟩
    | none => throw .misuse
  else if name = "watch" then
    let r ← readWords false false none {} rest
    return ⟨r.config.or config, .watch⟩
  else if name = "check" then
    let r ← readWords false false none {} rest
    return ⟨r.config.or config, .check⟩
  else if name = "help" ∧ asksHelp rest = true then throw .help
  else throw .misuse

/-- Reads the words up to a command, which must come before any `--`. -/
def readRequest (waiting : Option Waiting) (r : Reading) :
    List String → Except Refusal Request
  | [] => .error .misuse
  | word :: rest =>
      match waiting with
      | some option => do
          let r ← supply r option word
          readRequest none r rest
      | none =>
          match Word.of word with
          | .escape => .error .misuse
          | .long name value => do
              let (r, waiting) ← r.option false name value
              readRequest waiting r rest
          | .short flags => .error (shortRefusal flags)
          | .plain => readCommand r.config word rest

def request (args : List String) : Except Refusal Request :=
  readRequest none {} args

end Console
end VerifierSession
