import VerifierSession.Console.Program

/-!
# Running the program

The outer layer: files, variables and standard streams.  The verifier is not run from here.  What
it would write is read from standard input when one file is verified; when files are watched, each
verification ends at once with an unknown status.
-/

namespace VerifierSession
namespace Console

def canRead (path : Path) : IO Bool := do
  try
    let handle ← IO.FS.Handle.mk path.text .read
    let _ ← handle.read 1
    return true
  catch _ =>
    return false

/-- Adds a file to the directory, if it can be read. -/
def loadFile (d : Directory) (path : Path) : IO Directory := do
  try
    let bytes ← IO.FS.readBinFile path.text
    return d.add path (.file bytes.toList)
  catch _ =>
    return d

/-- Adds a program to the directory, if there is one. -/
def loadProgram (d : Directory) (path : Path) : IO Directory := do
  return if ← canRead path then d.add path .program else d

def readEnvironment : IO Environment := do
  let home := (← IO.getEnv "HOME").getD "."
  let bundle := (← IO.getEnv "HYPRA_HOME").map Path.mk
  let search := ((← IO.getEnv "PATH").getD "").splitOn ":"
  return { home := ⟨home⟩, bundle, search := search.map Path.mk }

def loadDirectory (e : Environment) (config : Option Path) : IO Directory := do
  let file := config.getD e.configFile
  let d ← loadFile ⟨[]⟩ file
  let c := (ConfigSource.file file).snapshot d
  let mut d ← loadProgram d (verifierJar c e.bundleDirectory)
  for r in Requisite.all do
    let paths := (c.configured r).toList ++ Directory.candidates e.search r.program
    for path in paths do
      d ← loadProgram d path
  return d

/-- Reads standard input to its end. -/
partial def readAll (input : IO.FS.Stream) (bytes : List UInt8) : IO (List UInt8) := do
  let block ← input.read 8192
  if block.isEmpty then return bytes else readAll input (bytes ++ block.toList)

def Program.flush (p : Program) : IO Program := do
  let output ← IO.getStdout
  output.putStr p.printed
  output.flush
  return { p with printed := "" }

/-- Gives the program one line of input, with the file that the line may name. -/
def Program.readLine (p : Program) (line : List UInt8) : IO Program := do
  let name := Text.trimmed (String.ofList (Text.Utf8.lossy line))
  let directory ← loadFile p.bench.directory ⟨name⟩
  let p := { p with bench := { p.bench with directory } }
  let p := p.feed (line ++ [Framing.lineFeed])
  (p.attend (.finish (.lost "not run"))).flush

def Program.finishRun (p : Program) : IO Program := do
  match p.stage with
  | .verifying _ =>
      let bytes ← readAll (← IO.getStdin) []
      ((p.attend (.write bytes)).attend (.finish (.exited 0))).flush
  | .watching _ =>
      let (lines, tail) := Framing.cut (← readAll (← IO.getStdin) [])
      let mut p := p
      for line in lines ++ (if tail.isEmpty then [] else [tail]) do
        p ← p.readLine line
      p.close.flush
  | _ => p.flush

/-- Runs the program for a command line; the answer is its exit code. -/
def run (args : List String) : IO UInt32 := do
  let e ← readEnvironment
  let parsed := request args
  let config := (parsed.toOption.map Request.config).join
  let mut d ← loadDirectory e config
  if let .ok ⟨_, .verify file _⟩ := parsed then
    d ← loadFile d file
  let p ← (Program.start e d args).finishRun
  return (p.code?.getD 1).toUInt32

end Console
end VerifierSession

def main (args : List String) : IO UInt32 :=
  VerifierSession.Console.run args
