import VerifierSession.Config

/-!
# Verifications that do not start

* `StartFailure` says what was missing or could not be used;
* `StartFailure.message` gives the reason, `StartFailure.summary` the headline above it.
-/

namespace VerifierSession

inductive StartFailure where
  | missingBinary (r : Requisite)
  | missingVerifier (jar : Path)
  | document (path : Path) (reason : String)
  | programMissing (program : Path)
  | programUnusable (program : Path) (reason : String)
  | missingPipe (stream : String)
  deriving DecidableEq, Repr

namespace StartFailure

def message : StartFailure → String
  | missingBinary r =>
      "\"" ++ r.program ++ "\" was not found. Set `" ++ r.key ++
        "` in the Hypra configuration or add \"" ++ r.program ++ "\" to PATH."
  | missingVerifier jar =>
      "Hypra verifier not found at " ++ jar.text ++
        ". Set `requisites.hypra_path` in the Hypra configuration."
  | document path reason => "cannot open " ++ path.text ++ ": " ++ reason
  | programMissing program => program.text ++ " does not exist or is not executable"
  | programUnusable program reason => "failed to start " ++ program.text ++ ": " ++ reason
  | missingPipe stream => "no " ++ stream ++ " pipe from verifier process"

def summary : StartFailure → String
  | missingBinary _ => "Hypra is not configured correctly."
  | missingVerifier _ => "Hypra is not configured correctly."
  | document path _ => "Could not open \"" ++ path.text ++ "\"."
  | programMissing program =>
      "Could not start the verifier: \"" ++ program.text ++ "\" was not found."
  | programUnusable _ _ => "Could not start the verifier."
  | missingPipe _ => "Could not start the verifier."

/-- Whether the configuration is to blame. -/
def isConfiguration : StartFailure → Bool
  | missingBinary _ => true
  | missingVerifier _ => true
  | _ => false

end StartFailure
end VerifierSession
