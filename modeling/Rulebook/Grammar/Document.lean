import Rulebook.Grammar

/-!
# The document of a grammar

A grammar is written as one JSON object : a member for each rule in order, the name and the
definition as strings, each member on a line of its own behind a chosen number of spaces.
In strings a quote, a backslash and the control characters below U+0020 are escaped, and
nothing else is.

`Grammar.layout` says how the document looks, with any number of spaces. The spaces are put
together before anything else, and no text is longer than `Text.maxSize` bytes : so with more
spaces there is no document, not even of the grammar without rules, and neither is there one that
would be longer itself (`Grammar.document`). Memory is taken to suffice for a text that is not
longer.
-/

namespace Rulebook.Grammar

/-- A digit of a hexadecimal number, in lower case. -/
def hexDigit (n : Nat) : Char :=
  if n < 10 then .ofNat ('0'.toNat + n) else .ofNat ('a'.toNat + (n - 10))

/-- A character inside a string of the document. -/
def escape (c : Char) : Text :=
  match c with
  | '"' => ['\\', '"']
  | '\\' => ['\\', '\\']
  | '\n' => ['\\', 'n']
  | '\r' => ['\\', 'r']
  | '\t' => ['\\', 't']
  | '\x08' => ['\\', 'b']
  | '\x0c' => ['\\', 'f']
  | c =>
    if c.toNat < 0x20 then
      ['\\', 'u', '0', '0', hexDigit (c.toNat / 16), hexDigit (c.toNat % 16)]
    else [c]

/-- A string of the document. -/
def quote (s : Text) : Text := '"' :: s.flatMap escape ++ ['"']

/-- A rule as a member of the object. -/
def member (indent : Nat) (r : Rule) : Text :=
  '\n' :: List.replicate indent ' ' ++ quote r.name ++ ':' :: ' ' :: quote r.definition

/-- The whole document as it is laid out, without a line break at its end. -/
def layout (g : Grammar) (indent : Nat) : Text :=
  match g.rules with
  | [] => ['{', '}']
  | rules => '{' :: Text.joinWith [','] (rules.map (member indent)) ++ ['\n', '}']

example : layout ⟨[⟨['a'], "\"x\"".toList⟩]⟩ 2 = "\x7b\n  \"a\": \"\\\"x\\\"\"\n\x7d".toList := by
  decide +kernel

/-- The document, if there can be one. The spaces come first, so that nothing is laid out behind too
many of them. -/
def document (g : Grammar) (indent : Nat) : Option Text :=
  if Text.maxSize < indent then none
  else if Text.maxSize < (g.layout indent).byteSize then none
  else some (g.layout indent)

/-- Neither the spaces nor the document are too long to be texts. -/
def Fits (g : Grammar) (indent : Nat) : Prop :=
  indent ≤ Text.maxSize ∧ (g.layout indent).byteSize ≤ Text.maxSize

theorem document_eq_some_iff {g : Grammar} {indent : Nat} {text : Text} :
    g.document indent = some text ↔ g.Fits indent ∧ g.layout indent = text := by
  simp only [document, Fits, Option.ite_none_left_eq_some, Option.some.injEq, Nat.not_lt, and_assoc]

theorem document_eq_none_iff {g : Grammar} {indent : Nat} :
    g.document indent = none ↔ ¬ g.Fits indent := by
  simp [Option.eq_none_iff_forall_ne_some, document_eq_some_iff]

end Rulebook.Grammar
