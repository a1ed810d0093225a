/-!
# Paths

A path is kept as it was written.  Its last component is found behind separators, and behind
single dots, at the end of the text; it is a file name unless it is a dot or two.

* `Path.split` cuts a path before its last component, dropping what follows it;
* `Path.stem`, `Path.extension?` cut a file name at its last dot, unless that dot comes first;
* `Path.withExtension` replaces the extension, and `Path.join` puts a path under a directory.
-/

namespace VerifierSession

/-- A path, as it was written. -/
structure Path where
  text : String
  deriving DecidableEq, Repr

namespace Path

/-- Takes separators, and dots that are whole components, off the end of a reversed path. -/
def stripEnd : List Char → List Char
  | '/' :: rest => stripEnd rest
  | '.' :: '/' :: rest => stripEnd ('/' :: rest)
  | cs => cs

/-- What comes before the last component, and the last component. -/
def split (p : Path) : List Char × List Char :=
  let reversed := stripEnd p.text.toList.reverse
  ((reversed.dropWhile (· != '/')).reverse, (reversed.takeWhile (· != '/')).reverse)

/-- The last component, unless it names a directory relative to another. -/
def fileName? (p : Path) : Option (List Char) :=
  let name := p.split.2
  if name = [] ∨ name = ['.'] ∨ name = ['.', '.'] then none else some name

def stem (name : List Char) : List Char :=
  let before := (name.reverse.dropWhile (· != '.')).tail.reverse
  if before.isEmpty then name else before

/-- What follows the last dot of a file name, unless the dot comes first. -/
def extensionOf? (name : List Char) : Option (List Char) :=
  let before := (name.reverse.dropWhile (· != '.')).tail.reverse
  if before.isEmpty then none else some (name.reverse.takeWhile (· != '.')).reverse

def extension? (p : Path) : Option String :=
  (p.fileName?.bind extensionOf?).map String.ofList

/--
Whether two dots are left of a path when its extension is taken off: they name a directory, and
no extension can be put behind them.
-/
def endsInDots (p : Path) (name : List Char) : Bool :=
  stem name == ['.'] && p.split.1 ++ name == p.text.toList

/-- The path with another extension; a path that names no file stays as it is. -/
def withExtension (p : Path) (extension : String) : Path :=
  match p.fileName? with
  | none => p
  | some name =>
      if p.endsInDots name then ⟨String.ofList (p.split.1 ++ ['.', '.'])⟩
      else ⟨String.ofList (p.split.1 ++ stem name ++ '.' :: extension.toList)⟩

def isAbsolute (p : Path) : Bool :=
  p.text.toList.head? == some '/'

/-- The path under a directory; an absolute path stands for itself. -/
def join (base : Path) (p : Path) : Path :=
  if p.isAbsolute || base.text.isEmpty then p
  else if base.text.toList.getLast? == some '/' then ⟨base.text ++ p.text⟩
  else ⟨base.text ++ "/" ++ p.text⟩

def isEmpty (p : Path) : Bool :=
  p.text.isEmpty

end Path
end VerifierSession
