import Rulebook.Text.Basic

/-!
# Blanks, comments and line ends of TOML

A reader, here and in the other modules on TOML, takes what it reads from the front of a
text and gives back the rest, or nothing if the text does not start that way.
-/

namespace Rulebook.Toml

/-- A blank within a line. -/
def isSpace (c : Char) : Bool := c = ' ' || c = '\t'

/-- A character that may stand in a line : no control character but the tab. -/
def isPlain (c : Char) : Bool := c = '\t' || (' ' ≤ c && c ≠ '\x7f')

/-- The text behind the blanks at its start. -/
def skipSpaces (s : Text) : Text := s.dropWhile isSpace

/-- A line end : a line feed, with or without a carriage return before it. -/
def newline? : Text → Option Text
  | '\n' :: s | '\r' :: '\n' :: s => some s
  | _ => none

/-- The text without the comment it starts with, if it does. -/
def skipComment (s : Text) : Text :=
  match s with
  | '#' :: s => s.dropWhile isPlain
  | s => s

/-- What may follow a statement on its line : blanks, a comment, and the end of the line or of
the text. -/
def lineEnd? (s : Text) : Option Text :=
  match skipComment (skipSpaces s) with
  | [] => some []
  | s => newline? s

/-- Blanks, line ends and comments up to something else, in `fuel` lines at most. A comment needs
a line end after it. -/
def skipLines? : (fuel : Nat) → Text → Option Text
  | 0, _ => none
  | fuel + 1, s =>
    match skipSpaces s with
    | '#' :: s => (newline? (s.dropWhile isPlain)).bind (skipLines? fuel)
    | s =>
      match newline? s with
      | some s => skipLines? fuel s
      | none => some s

/-- Blanks, line ends and comments up to something else. -/
def blankLines? (s : Text) : Option Text := skipLines? (s.length + 1) s

end Rulebook.Toml
