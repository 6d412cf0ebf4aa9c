import Rulebook.Text.Blank

/-!
# Lines of a grammar

A line is the header of a rule, `<name> ::= definition`, or it continues the rule before
it. A header starts with the name in angle brackets, blanks may stand on both sides of the
`::=`, and after those no line feed. Every other line is a continuation, so none is
refused here.
-/

namespace Rulebook

open Text

/-- What one line of a grammar says. -/
inductive Line where
  | header (name definition : Text)
  | continuation (text : Text)
  deriving DecidableEq, Repr

namespace Line

/-- The sign between the name of a rule and its definition. -/
def definedAs : Text := [':', ':', '=']

/-- The name and the untrimmed definition of a header. -/
def header? : Text → Option (Text × Text)
  | '<' :: s => do
    let (name, afterName) ← cutAt? '>' s
    let body ← after? definedAs (trimStart afterName)
    if name ≠ [] ∧ '\n' ∉ trimStart body then some (name, body) else none
  | _ => none

/-- A header with its definition trimmed, or else a continuation by the whole line. -/
def classify (line : Text) : Line :=
  match header? line with
  | some (name, body) => header name (trim body)
  | none => continuation line

example : classify "<a b>\t::=  'x' ".toList = header "a b".toList "'x'".toList := by decide

end Line

end Rulebook
