/-!
# Lines of a text

A line ends at a line feed, and a carriage return right before it belongs to the line break.  What
follows the last line feed is a line only if it is not empty.
-/

namespace VerifierSession
namespace Text

/-- The lines of a text, without their line breaks. -/
def lines (cs : List Char) : List (List Char) :=
  match cs with
  | [] => []
  | '\n' :: rest => [] :: lines rest
  | '\r' :: '\n' :: rest => [] :: lines rest
  | c :: rest =>
      match lines rest with
      | [] => [[c]]
      | line :: more => (c :: line) :: more

end Text
end VerifierSession
