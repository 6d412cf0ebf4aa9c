import Rulebook.Text.Basic

/-!
# Lines

A line ends at a carriage return with the line feed after it, at a lone carriage return,
or at a lone line feed. Nothing else breaks a line, and a break at the end of a text opens
no further line.
-/

namespace Rulebook.Text

/-- The lines with `c` in front of the first one, which it opens if there is none. -/
def extendFirst (c : Char) : List Text → List Text
  | [] => [[c]]
  | line :: rest => (c :: line) :: rest

/-- The lines of a text, without their breaks. -/
def lines : Text → List Text
  | [] => []
  | '\r' :: '\n' :: s => [] :: lines s
  | '\r' :: s => [] :: lines s
  | '\n' :: s => [] :: lines s
  | c :: s => extendFirst c (lines s)

example : lines "a\r\n\rb\n".toList = ["a".toList, [], "b".toList] := by decide

end Rulebook.Text
