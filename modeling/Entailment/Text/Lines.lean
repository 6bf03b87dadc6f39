/-!
# Lines of a text

A line ends at a line feed, or at a carriage return directly followed by one.  What follows the last
line feed is a line of its own unless it is empty.
-/

namespace Entailment.Text

/-- The lines of a text, without what ends them. -/
def splitLines : List Char → List (List Char)
  | [] => []
  | '\n' :: rest => [] :: splitLines rest
  | '\r' :: '\n' :: rest => [] :: splitLines rest
  | c :: rest =>
    match splitLines rest with
    | [] => [[c]]
    | line :: lines => (c :: line) :: lines

def lines (source : String) : List String := (splitLines source.toList).map String.ofList

end Entailment.Text
