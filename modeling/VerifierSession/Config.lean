import VerifierSession.Path
import VerifierSession.Toml.Row

/-!
# Configuration

Where the programs of a verification are, and which flags the verifier gets.

* a path that is empty counts as not configured;
* `Config.ofDocument?` reads a configuration from a TOML document: what the document does not say
  keeps its default, and a field of the wrong kind spoils the whole document.
-/

namespace VerifierSession

/-- A program that no verification can do without. -/
inductive Requisite where
  | java
  | z3
  | boogie
  deriving DecidableEq, Repr

namespace Requisite

/-- The requisites, in the order they are looked for. -/
def all : List Requisite :=
  [java, z3, boogie]

def program : Requisite → String
  | java => "java"
  | z3 => "z3"
  | boogie => "boogie"

/-- The field of the configuration where its path can be set. -/
def key : Requisite → String
  | java => "requisites.java_path"
  | z3 => "requisites.z3_path"
  | boogie => "requisites.boogie_path"

end Requisite

/-- Paths of programs, and of the verifier itself. -/
structure Requisites where
  java : Option Path := none
  z3 : Option Path := none
  boogie : Option Path := none
  verifier : Option Path := none
  deriving DecidableEq, Repr

structure Options where
  forallEncoding : Bool := false
  existsEncoding : Bool := false
  noFrame : Bool := false
  existsFrame : Bool := false
  auto : Bool := true
  inlined : Bool := false
  saveEncoding : Bool := false
  deriving DecidableEq, Repr

/-- A configuration; the defaults are those of an empty document. -/
structure Config where
  requisites : Requisites := {}
  options : Options := {}
  deriving DecidableEq, Repr

/-- A path, unless it is empty. -/
def Path.nonEmpty? (p : Option Path) : Option Path :=
  p.filter fun p => !p.isEmpty

namespace Config

def configured (config : Config) (r : Requisite) : Option Path :=
  Path.nonEmpty? <|
    match r with
    | .java => config.requisites.java
    | .z3 => config.requisites.z3
    | .boogie => config.requisites.boogie

/-- The verifier to use in place of the one in the bundle. -/
def customVerifier (config : Config) : Option Path :=
  Path.nonEmpty? config.requisites.verifier

/-! ## Reading -/

def requisiteNames : List String :=
  ["java_path", "z3_path", "boogie_path", "hypra_path"]

def optionNames : List String :=
  ["forall_encoding", "exists_encoding", "no_frame", "exists_frame", "auto", "inline",
   "save_viper_encoding"]

/-- A field with a path; it may be missing. -/
def path? (field : Option Toml.Node) : Option (Option Path) :=
  (Toml.optionalText field).map (Option.map Path.mk)

def requisitesOf : List (Option Toml.Node) → Option Requisites
  | [java, z3, boogie, verifier] => do
      return ⟨← path? java, ← path? z3, ← path? boogie, ← path? verifier⟩
  | _ => none

def optionsOf : List (Option Toml.Node) → Option Options
  | [forallEncoding, existsEncoding, noFrame, existsFrame, auto, inlined, saveEncoding] => do
      return ⟨← Toml.flag false forallEncoding, ← Toml.flag false existsEncoding,
        ← Toml.flag false noFrame, ← Toml.flag false existsFrame, ← Toml.flag true auto,
        ← Toml.flag false inlined, ← Toml.flag false saveEncoding⟩
  | _ => none

/-- A part of the configuration; it may be missing. -/
def part {α : Type} (missing : α) (names : List String) (read : List (Option Toml.Node) → Option α)
    (field : Option Toml.Node) : Option α :=
  match field with
  | none => some missing
  | some node => (node.row names).bind read

def ofMembers? (members : Toml.Members) : Option Config := do
  let requisites ← part {} requisiteNames requisitesOf (members.find? "requisites")
  let options ← part {} optionNames optionsOf (members.find? "options")
  return ⟨requisites, options⟩

def ofDocument? (text : List Char) : Option Config :=
  (Toml.readDocument text).bind ofMembers?

end Config
end VerifierSession
