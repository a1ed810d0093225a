import VerifierSession.StartFailure

/-!
# The programs of a verification

* a configured path is taken as it is, and a requisite without one is looked up by its name;
* the verifier is the configured one or the one in the bundle, and must be a file;
* `resolveToolchain` reports the first thing missing, `missingRequisites` every requisite that is.
-/

namespace VerifierSession

structure Toolchain where
  java : Path
  z3 : Path
  boogie : Path
  verifierJar : Path
  deriving DecidableEq, Repr

/-- The verifier's file in the bundle. -/
def bundledJar : Path :=
  ⟨"hhl.jar"⟩

/-- The path of a requisite, configured or found. -/
def resolveRequisite (config : Config) (find : String → Option Path) (r : Requisite) :
    Option Path :=
  (config.configured r).orElse fun _ => find r.program

/-- The requisites that are neither configured nor found. -/
def missingRequisites (config : Config) (find : String → Option Path) : List Requisite :=
  Requisite.all.filter fun r => (resolveRequisite config find r).isNone

/-- The path of a requisite, or the failure that it is missing. -/
def require (config : Config) (find : String → Option Path) (r : Requisite) :
    Except StartFailure Path :=
  match resolveRequisite config find r with
  | some path => .ok path
  | none => .error (.missingBinary r)

def verifierJar (config : Config) (bundle : Path) : Path :=
  config.customVerifier.getD (bundle.join bundledJar)

/-- The programs of a verification, or the first that is missing. -/
def resolveToolchain (config : Config) (find : String → Option Path) (isFile : Path → Bool)
    (bundle : Path) : Except StartFailure Toolchain := do
  let java ← require config find .java
  let z3 ← require config find .z3
  let boogie ← require config find .boogie
  let jar := verifierJar config bundle
  if isFile jar then return ⟨java, z3, boogie, jar⟩ else throw (.missingVerifier jar)

end VerifierSession
