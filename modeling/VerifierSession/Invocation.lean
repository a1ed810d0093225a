import VerifierSession.Toolchain

/-!
# Running the verifier

The command line and environment of one verification.  The program under verification comes
first, then the flags that the configuration asks for or the caller gives, and last the flag that
makes the verifier write records.
-/

namespace VerifierSession

inductive Flags where
  | configured
  | custom (args : List String)
  deriving DecidableEq, Repr

/-- A program to run, with its arguments and what it adds to the environment. -/
structure Invocation where
  program : Path
  args : List String
  env : List (String × String)
  deriving DecidableEq, Repr

def isVerifierSource (p : Path) : Bool :=
  p.extension? == some "hhl"

/-- Where the intermediate encoding of a program is saved. -/
def encodingPath (target : Path) : Path :=
  target.withExtension "vpr"

/-- A flag, if it is wanted. -/
def flagIf (wanted : Bool) (flag : String) : List String :=
  if wanted then [flag] else []

def Options.flags (options : Options) (target : Path) : List String :=
  flagIf options.forallEncoding "--forall" ++
  flagIf options.existsEncoding "--exists" ++
  flagIf options.noFrame "--noframe" ++
  flagIf options.existsFrame "--existsframe" ++
  flagIf options.auto "--auto" ++
  flagIf options.inlined "--inline" ++
  (if options.saveEncoding then ["--output", (encodingPath target).text] else [])

def Flags.args (flags : Flags) (options : Options) (target : Path) : List String :=
  match flags with
  | configured => options.flags target
  | custom args => args

/-- A variable with the path of a requisite, if one is configured. -/
def setting (config : Config) (r : Requisite) (name : String) (path : Path) :
    List (String × String) :=
  if (config.configured r).isSome then [(name, path.text)] else []

def invocation (config : Config) (toolchain : Toolchain) (target : Path) (flags : Flags) :
    Invocation where
  program := toolchain.java
  args :=
    ["-Xss32m", "-jar", toolchain.verifierJar.text, target.text] ++
      flags.args config.options target ++ ["--ext"]
  env :=
    setting config .z3 "Z3_EXE" toolchain.z3 ++
      setting config .boogie "BOOGIE_EXE" toolchain.boogie

def Invocation.text (i : Invocation) : String :=
  i.program.text ++ " " ++ " ".intercalate i.args

end VerifierSession
