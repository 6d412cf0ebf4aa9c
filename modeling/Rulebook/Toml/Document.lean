import Rulebook.Toml.Number
import Rulebook.Toml.Table
import Rulebook.Toml.Tagged

/-!
# TOML documents

A document is a list of statements : pairs of a key and a value, and headers, each of which
opens the table that the pairs after it belong to. `parse?` gives the value of a document, the
table that it describes, or nothing if it is not well formed, defines something twice, or
holds a table that should stand for a moment and does not.
-/

namespace Rulebook.Toml

/-- How deep arrays and braces may be nested, and how many names a key may have. -/
def maxDepth : Nat := 79

/-! ## Keys and values -/

/-- A character that may stand in a name without quotes. -/
def isBareKeyChar (c : Char) : Bool := c.isAlphanum || c = '-' || c = '_'

/-- One name of a key. -/
def keyName? (s : Text) : Option (Text × Text) :=
  match s with
  | '"' :: _ | '\'' :: _ => lineString? s
  | s =>
    match s.takeWhile isBareKeyChar with
    | [] => none
    | name => some (name, s.dropWhile isBareKeyChar)

/-- A key of at most `limit` names, with blanks around each. -/
def key? : (limit : Nat) → Text → Option (Key × Text)
  | 0, _ => none
  | limit + 1, s => do
    let (name, s) ← keyName? (skipSpaces s)
    match skipSpaces s with
    | '.' :: s =>
      let (key, s) ← key? limit s
      return (⟨name :: key.parents, key.name⟩, s)
    | s => return (⟨[], name⟩, s)

/-- A key, the equals sign and a value, which `value?` reads. -/
def pair? (value? : Text → Option (Value × Text)) (s : Text) :
    Option ((Key × Value) × Text) := do
  let (key, s) ← key? maxDepth s
  let s ← Text.after? ['='] s
  let (v, s) ← value? (skipSpaces s)
  return ((key, v), s)

/-- The items of an array up to its closing bracket, in `fuel` steps at most. -/
def items? (value? : Text → Option (Value × Text)) :
    (fuel : Nat) → Text → Option (List Value × Text)
  | 0, _ => none
  | fuel + 1, s => do
    match ← blankLines? s with
    | ']' :: s => return ([], s)
    | s =>
      let (v, s) ← value? s
      match ← blankLines? s with
      | ',' :: s =>
        let (vs, s) ← items? value? fuel s
        return (v :: vs, s)
      | ']' :: s => return ([v], s)
      | _ => none

/-- The pairs in braces up to the closing one, after the first or after a comma. -/
def pairs? (value? : Text → Option (Value × Text)) :
    (fuel : Nat) → Text → Option (List (Key × Value) × Text)
  | 0, _ => none
  | fuel + 1, s => do
    let (p, s) ← pair? value? s
    match skipSpaces s with
    | ',' :: s =>
      let (ps, s) ← pairs? value? fuel s
      return (p :: ps, s)
    | '}' :: s => return ([p], s)
    | _ => none

/-- The table that pairs in braces make. -/
def ofPairs? (pairs : List (Key × Value)) : Option Value :=
  (Draft.addPairs? pairs []).map fun members => .table (Draft.membersToValues members)

/-- A value, with arrays and braces nested at most `depth` deep. -/
def value? (depth : Nat) (s : Text) : Option (Value × Text) :=
  match s with
  | '"' :: _ | '\'' :: _ => (string? s).map fun (t, s) => (.string t, s)
  | '[' :: s =>
    match depth with
    | 0 => none
    | depth + 1 => (items? (value? depth) (s.length + 1) s).map fun (vs, s) => (.array vs, s)
  | '{' :: s =>
    match depth with
    | 0 => none
    | depth + 1 =>
      match skipSpaces s with
      | '}' :: s => some (.table [], s)
      | s => do
        let (ps, s) ← pairs? (value? depth) (s.length + 1) s
        return (← ofPairs? ps, s)
  | 't' :: 'r' :: 'u' :: 'e' :: s => some (.boolean true, s)
  | 'f' :: 'a' :: 'l' :: 's' :: 'e' :: s => some (.boolean false, s)
  | s =>
    match moment? s with
    | some (t, s) => some (.moment t, s)
    | none => number? s

/-! ## Statements -/

/-- The header of a table, or of one of several tables under one name. -/
structure Header where
  key : Key
  several : Bool
  deriving DecidableEq, Repr

/-- What a document says in one piece : a key with its value, or a header. -/
inductive Statement where
  | pair (key : Key) (v : Value)
  | header (h : Header)

/-- A statement with the end of its line. -/
def statement? (s : Text) : Option (Statement × Text) := do
  match s with
  | '[' :: '[' :: s =>
    let (key, s) ← key? maxDepth s
    let s ← Text.after? [']', ']'] s
    return (.header ⟨key, true⟩, ← lineEnd? s)
  | '[' :: s =>
    let (key, s) ← key? maxDepth s
    let s ← Text.after? [']'] s
    return (.header ⟨key, false⟩, ← lineEnd? s)
  | s =>
    let ((key, v), s) ← pair? (value? maxDepth) s
    return (.pair key v, ← lineEnd? s)

/-- The statements of a text, one on a line, in `fuel` lines at most. -/
def statements? : (fuel : Nat) → Text → Option (List Statement)
  | 0, _ => none
  | fuel + 1, s =>
    match skipSpaces s with
    | [] => some []
    | '#' :: _ | '\n' :: _ | '\r' :: _ => (lineEnd? s).bind (statements? fuel)
    | s => do
      let (first, s) ← statement? s
      return first :: (← statements? fuel s)

/-! ## The table of a document -/

/-- The pairs before the first header, and every header with the pairs up to the next. -/
def sections : List Statement → List (Key × Value) × List (Header × List (Key × Value))
  | [] => ([], [])
  | .pair key v :: rest =>
    let (pairs, headed) := sections rest
    ((key, v) :: pairs, headed)
  | .header h :: rest =>
    let (pairs, headed) := sections rest
    ([], (h, pairs) :: headed)

/-- The members of the table that statements describe. -/
def ofStatements? (statements : List Statement) : Option (List (Text × Value)) := do
  let (pairs, headed) := sections statements
  let members ← headed.foldlM
    (fun members (h, pairs) =>
      Draft.addTable? h.several pairs h.key.name h.key.parents members)
    (← Draft.addPairs? pairs [])
  return Draft.membersToValues members

/-- The value of a document : the table that it describes, or the moment that this table stands
for. A byte order mark in front is skipped. -/
def parse? (text : Text) : Option Value := do
  let text := match text with
    | '\uFEFF' :: s => s
    | s => s
  Value.untag? (.table (← ofStatements? (← statements? (text.length + 1) text)))

end Rulebook.Toml
