import VerifierSession.Text.Printable

/-!
# Quoted texts

The quoted form of a text in an error message.  The quotation mark, the backslash and the common
control characters are written with a backslash; any other character that cannot be shown is
written by its code point, `\u` and hexadecimal digits in braces.

* `escaped` is the form of one character;
* `quoted` is the whole text between quotation marks.
-/

namespace VerifierSession
namespace Text

def escaped (c : Char) : List Char :=
  match c with
  | '\x00' => ['\\', '0']
  | '\t' => ['\\', 't']
  | '\n' => ['\\', 'n']
  | '\r' => ['\\', 'r']
  | '"' => ['\\', '"']
  | '\\' => ['\\', '\\']
  | c =>
      if isPrintable c then [c]
      else ['\\', 'u', '\x7b'] ++ Nat.toDigits 16 c.toNat ++ ['\x7d']

/-- A text between quotation marks, with what cannot stand there escaped. -/
def quoted (s : String) : String :=
  String.ofList ('"' :: s.toList.flatMap escaped ++ ['"'])

end Text
end VerifierSession
