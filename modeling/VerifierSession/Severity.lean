/-!
# Severities and log levels

* `Severity` is how serious a finding is; `Severity.ofTag?` reads the tag of a verifier record;
* `LogLevel` is the level of a log entry or notification, and every severity has one.
-/

namespace VerifierSession

inductive Severity where
  | info
  | warning
  | error
  | debug
  deriving DecidableEq, Repr

inductive LogLevel where
  | info
  | warn
  | error
  | debug
  deriving DecidableEq, Repr

namespace Severity

/-- The severity a record's tag names; an error has two tags. -/
def ofTag? (tag : String) : Option Severity :=
  if tag = "INFO" then some .info
  else if tag = "WARN" then some .warning
  else if tag = "ERR" ∨ tag = "ERROR" then some .error
  else if tag = "DEBUG" then some .debug
  else none

def label : Severity → String
  | info => "info"
  | warning => "warning"
  | error => "error"
  | debug => "debug"

def isError (s : Severity) : Bool :=
  s == .error

def logLevel : Severity → LogLevel
  | info => .info
  | warning => .warn
  | error => .error
  | debug => .debug

end Severity

def LogLevel.label : LogLevel → String
  | info => "INFO"
  | warn => "WARN"
  | error => "ERROR"
  | debug => "DEBUG"

end VerifierSession
