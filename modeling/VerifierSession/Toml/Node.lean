/-!
# TOML documents

A document is a tree of tables.  A table remembers how it came to be, because that decides what
may still be added to it.

* a key may be set once, and a table may be opened by one header;
* a header may open a table that other headers only passed through, and may add below any table
  that is not written in braces;
* dotted keys add only to tables that dotted keys made, and pass through none that a header opened.
-/

namespace VerifierSession
namespace Toml

inductive Origin where
  | header
  | passed
  | dotted
  | braces
  deriving DecidableEq, Repr

inductive Node where
  | text (s : String)
  | boolean (b : Bool)
  | number
  | moment
  | list (items : List Node)
  | tables (elements : List Node)
  | table (origin : Origin) (members : List (String × Node))

/-- The members of a table, in the order they were written. -/
abbrev Members : Type :=
  List (String × Node)

namespace Members

def find? (members : Members) (key : String) : Option Node :=
  match members with
  | [] => none
  | (k, node) :: rest => if k = key then some node else find? rest key

/-- Sets a key, at its old place if it has one. -/
def set (members : Members) (key : String) (node : Node) : Members :=
  match members with
  | [] => [(key, node)]
  | (k, old) :: rest => if k = key then (k, node) :: rest else (k, old) :: set rest key node

/--
Changes the table at the end of a path, given with its origin, and makes the tables on the way
that are not there yet.
-/
def change (viaDots : Bool) (origin : Origin) (members : Members) (path : List String)
    (f : Origin → Members → Option Members) : Option Members :=
  match path with
  | [] => f origin members
  | key :: path =>
      match find? members key with
      | none => do
          let origin := if viaDots then .dotted else .passed
          let below ← change viaDots origin [] path f
          return members.set key (.table origin below)
      | some (.table origin below) =>
          if origin = .braces ∨ (viaDots = true ∧ origin = .header) then none
          else do
            let below ← change viaDots origin below path f
            return members.set key (.table origin below)
      | some (.tables elements) =>
          match elements.getLast? with
          | some (.table origin below) => do
              let below ← change viaDots origin below path f
              return members.set key (.tables (elements.dropLast ++ [.table origin below]))
          | _ => none
      | some _ => none

def insert (members : Members) (path : List String) (key : String) (node : Node) :
    Option Members :=
  change true .header members path fun origin members =>
    if decide (origin = .dotted) == path.isEmpty then none
    else if (find? members key).isSome then none
    else some (members ++ [(key, node)])

def insertAll (members : Members) (pairs : List (List String × String × Node)) : Option Members :=
  pairs.foldlM (fun members pair => insert members pair.1 pair.2.1 pair.2.2) members

/-- Opens the table of a header and sets the keys below the header. -/
def openTable (members : Members) (path : List String) (key : String)
    (pairs : List (List String × String × Node)) : Option Members :=
  change false .header members path fun _ members =>
    match find? members key with
    | none => do
        let below ← insertAll [] pairs
        return members ++ [(key, .table .header below)]
    | some (.table .passed below) => do
        let below ← insertAll below pairs
        return set members key (.table .header below)
    | some _ => none

/-- Adds an element to the list of tables of a header and sets the keys below the header. -/
def addElement (members : Members) (path : List String) (key : String)
    (pairs : List (List String × String × Node)) : Option Members :=
  change false .header members path fun _ members => do
    let below ← insertAll [] pairs
    match find? members key with
    | none => return members ++ [(key, .tables [.table .header below])]
    | some (.tables elements) =>
        return set members key (.tables (elements ++ [.table .header below]))
    | some _ => none

end Members
end Toml
end VerifierSession
