import VerifierSession.Toml.Reading

/-!
# Rows of fields

A table that is read for fields with fixed names.  Instead of a table a list may stand, with the
fields in the order of their names; fields may be missing at its end, but nothing may follow the
last one.  Members of a table that are no fields are passed over.
-/

namespace VerifierSession
namespace Toml

def rowOfItems (names : List String) (items : List Node) : Option (List (Option Node)) :=
  if names.length < items.length then none
  else some (items.map some ++ List.replicate (names.length - items.length) none)

def rowOfMembers (names : List String) (members : Members) : List (Option Node) :=
  names.map members.find?

/-- The fields of a value, if it is a table or a list that is not too long. -/
def Node.row (names : List String) : Node → Option (List (Option Node))
  | table _ members => some (rowOfMembers names members)
  | list items => rowOfItems names items
  | tables elements => rowOfItems names elements
  | _ => none

/-- A field with a truth value; it may be missing. -/
def flag (missing : Bool) : Option Node → Option Bool
  | none => some missing
  | some (.boolean b) => some b
  | some _ => none

/-- A field with a text; it may be missing. -/
def optionalText : Option Node → Option (Option String)
  | none => some none
  | some (.text s) => some (some s)
  | some _ => none

end Toml
end VerifierSession
