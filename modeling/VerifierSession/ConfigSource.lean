import VerifierSession.Config
import VerifierSession.Directory

/-!
# Where configurations come from

A configuration is fixed, or it is read from a file anew each time it is asked for.  A file that
is missing, cannot be read or holds no configuration stands for the defaults.
-/

namespace VerifierSession

/-- Why a file could not be read as a configuration. -/
inductive LoadFailure where
  | unreadable (path : Path) (obstacle : Obstacle)
  | malformed (path : Path)
  deriving DecidableEq, Repr

def LoadFailure.message : LoadFailure → String
  | unreadable path obstacle => "Failed to read config at " ++ path.text ++ ": " ++ obstacle.message
  | malformed path => "Failed to parse config at " ++ path.text

def Config.load (d : Directory) (path : Path) : Except LoadFailure Config :=
  match d.readText path with
  | .error obstacle => .error (.unreadable path obstacle)
  | .ok text =>
      match Config.ofDocument? text with
      | some config => .ok config
      | none => .error (.malformed path)

inductive ConfigSource where
  | fixed (config : Config)
  | file (path : Path)
  deriving DecidableEq, Repr

namespace ConfigSource

def snapshot (source : ConfigSource) (d : Directory) : Config :=
  match source with
  | fixed config => config
  | file path =>
      match Config.load d path with
      | .ok config => config
      | .error _ => {}

def location : ConfigSource → Option Path
  | fixed _ => none
  | file path => some path

end ConfigSource
end VerifierSession
