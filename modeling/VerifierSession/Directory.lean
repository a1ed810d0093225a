import VerifierSession.Path
import VerifierSession.Text.Utf8

/-!
# The working directory

Files, directories and programs as a verification sees them.  Places are given by their
components, those of an absolute path behind a slash.  The working directory itself is written `@`
in absolute paths; of what lies above it nothing is known.

* `Directory.locate` follows a path: every component but the last must be a directory;
* `Directory.readText` is the text of a file, `Directory.launch` tries to run a program,
  `Directory.search` looks one up in a list of directories.
-/

namespace VerifierSession

inductive Entry where
  | directory
  | file (bytes : List UInt8)
  | program
  deriving DecidableEq, Repr

/-- Why a path cannot be used. -/
inductive Obstacle where
  | missing
  | notDirectory
  | isDirectory
  | denied
  | notText
  deriving DecidableEq, Repr

def Obstacle.message : Obstacle → String
  | missing => "No such file or directory (os error 2)"
  | denied => "Permission denied (os error 13)"
  | notDirectory => "Not a directory (os error 20)"
  | isDirectory => "Is a directory (os error 21)"
  | notText => "stream did not contain valid UTF-8"

/-- A place: components from the working directory or the root, or somewhere above the former. -/
inductive Location where
  | below (components : List String)
  | above
  deriving DecidableEq, Repr

/-- The components of a place; none are known of one above the working directory. -/
def Location.components : Location → List String
  | below components => components
  | above => []

/-- The entries of the working directory with their components. -/
structure Directory where
  entries : List (List String × Entry)
  deriving DecidableEq, Repr

/-- The components of a path; nothing stands between two separators. -/
def Path.components (p : Path) : List String :=
  (p.text.toList.splitOn '/').map String.ofList

/-- The components of a path that lead somewhere else. -/
def Path.names (p : Path) : List String :=
  p.components.filter fun name => !(name == "" || name == ".")

namespace Directory

/-- What stands at some components; the working directory and the root are always there. -/
def entry? (d : Directory) (components : List String) : Option Entry :=
  if components = [] ∨ components = ["/"] then some .directory
  else (d.entries.find? fun e => decide (e.1 = components)).map (·.2)

def isDirectoryAt (d : Directory) : Location → Bool
  | .above => true
  | .below components => d.entry? components == some .directory

def enter (d : Directory) (place : Location) (name : String) : Except Obstacle Location :=
  if !d.isDirectoryAt place then .error .notDirectory
  else if name = "" ∨ name = "." then .ok place
  else
    match place, name with
    | .above, ".." => .ok .above
    | .above, _ => .error .missing
    | .below [], ".." => .ok .above
    | .below ["/"], ".." => .ok place
    | .below components, ".." => .ok (.below components.dropLast)
    | .below components, name =>
        if (d.entry? (components ++ [name])).isSome then .ok (.below (components ++ [name]))
        else .error .missing

/-- Where a path starts, and the components to follow from there. -/
def startOf (p : Path) : Location × List String :=
  match p.components with
  | "@" :: rest => (.below [], rest)
  | components => (.below (if p.isAbsolute then ["/"] else []), components)

def locate (d : Directory) (p : Path) : Except Obstacle Location :=
  if p.isEmpty then .error .missing
  else
    let (place, components) := startOf p
    components.foldlM d.enter place

def lookup (d : Directory) (p : Path) : Except Obstacle Entry := do
  match ← d.locate p with
  | .above => return .directory
  | .below components => return (d.entry? components).getD .directory

def isFile (d : Directory) (p : Path) : Bool :=
  match d.lookup p with
  | .ok (.file _) => true
  | .ok .program => true
  | _ => false

def isProgram (d : Directory) (p : Path) : Bool :=
  match d.lookup p with
  | .ok .program => true
  | _ => false

def readText (d : Directory) (p : Path) : Except Obstacle (List Char) := do
  match ← d.lookup p with
  | .directory => .error .isDirectory
  | .program => return []
  | .file bytes =>
      match Text.Utf8.text? bytes with
      | some text => return text
      | none => .error .notText

/-! ## Programs -/

/-- The working directory in absolute paths. -/
def root : Path :=
  ⟨"@"⟩

/--
The places where a program with a name is looked for, in order; with no directory to search, it
is looked for where one stands.
-/
def candidates (search : List Path) (name : String) : List Path :=
  if search.isEmpty then [⟨name⟩]
  else search.map fun directory => (root.join directory).join ⟨name⟩

/-- The path of a program: what is more than one name is a path itself. -/
def search (d : Directory) (search : List Path) (name : String) : Option Path :=
  let p : Path := ⟨name⟩
  if p.isAbsolute then some p |>.filter d.isProgram
  else if p.components.head? = some "." ∨ 1 < p.names.length then
    some (root.join ⟨String.intercalate "/" p.names⟩) |>.filter d.isProgram
  else (candidates search name).find? d.isProgram

def launchAt (d : Directory) (p : Path) : Except Obstacle Unit := do
  match ← d.lookup p with
  | .program => return ()
  | _ => .error .denied

/--
The outcome of trying several places: the first that can be run.  If there is none the last place
gives the reason, unless another place denied the program.
-/
def firstLaunch : List (Except Obstacle Unit) → Except Obstacle Unit
  | [] => .error .missing
  | [outcome] => outcome
  | .ok () :: _ => .ok ()
  | .error obstacle :: rest =>
      match firstLaunch rest with
      | .ok () => .ok ()
      | .error later => .error (if obstacle = .denied then .denied else later)

/-- Tries to run a program; a name without a separator is looked for. -/
def launch (d : Directory) (search : List Path) (program : Path) : Except Obstacle Unit :=
  if program.isEmpty then .error .missing
  else if program.text.toList.contains '/' then d.launchAt program
  else firstLaunch ((candidates search program.text).map d.launchAt)

/-! ## Changes -/

def plainComponents (p : Path) : List String :=
  (startOf p).2.foldl
    (fun components name =>
      if name = "" ∨ name = "." then components
      else if name = ".." then components.dropLast
      else components ++ [name]) (startOf p).1.components

/-- Puts an entry at some components, in the place of what stood there. -/
def put (d : Directory) (components : List String) (entry : Entry) : Directory :=
  ⟨(components, entry) :: d.entries.filter fun e => decide (e.1 ≠ components)⟩

/-- Makes the directories above some components, unless something stands there. -/
def makeParents (d : Directory) (components : List String) : Directory :=
  (List.range components.length).foldl
    (fun d n =>
      if (d.entry? (components.take n)).isSome then d else d.put (components.take n) .directory) d

/-- Puts an entry where a path leads to, with the directories above it. -/
def add (d : Directory) (p : Path) (entry : Entry) : Directory :=
  (d.makeParents (plainComponents p)).put (plainComponents p) entry

def remove (d : Directory) (p : Path) : Directory :=
  ⟨d.entries.filter fun e => decide (e.1 ≠ plainComponents p)⟩

end Directory
end VerifierSession
