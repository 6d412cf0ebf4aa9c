import Rulebook.Settings.Value

/-!
# Paths of settings

A path names a place among nested tables and lists : an identifier, then identifiers after
dots and indices in brackets. `Path.parse` reads one and says what is wrong with a text
that is none. `Value.setAt` sets a value at a path and makes tables and lists on the way.
-/

namespace Rulebook.Settings

/-- One step of a path : to a member of a table, or to an item of a list. -/
inductive Step where
  | member (name : Text)
  | item (index : Int)
  deriving DecidableEq, Repr

/-- Why a text is no path. -/
inductive PathFault where
  /-- It does not start with an identifier. -/
  | noIdentifier
  /-- Something other than a step follows. -/
  | noStep
  /-- There is no number after a bracket. -/
  | noDigit
  /-- The number after a bracket is too large. -/
  | indexTooLarge
  deriving DecidableEq, Repr

/-- What a message says of the fault. -/
def PathFault.message : PathFault → String
  | noIdentifier => "IsA"
  | noStep => "Char"
  | noDigit => "Digit"
  | indexTooLarge => "Map on Result"

namespace Path

/-- A character of an identifier. -/
def isIdentifierChar (c : Char) : Bool := c.isAlphanum || c = ' ' || c = '_' || c = '-'

/-- A blank that may stand beside an index. -/
def isSpace (c : Char) : Bool := c = ' ' || c = '\t'

/-- The identifier in front of a text, if there is one. -/
def identifier? (s : Text) : Option (Text × Text) :=
  match s.takeWhile isIdentifierChar with
  | [] => none
  | name => some (name, s.dropWhile isIdentifierChar)

/-- An index with its closing bracket, after the opening one. -/
def index (s : Text) : Except PathFault (Int × Text) :=
  let s := s.dropWhile isSpace
  let (negative, s) := match s with
    | '-' :: s => (true, s)
    | s => (false, s)
  match s.takeWhile Char.isDigit with
  | [] => .error .noDigit
  | ds =>
    let n := Int.ofNat (ds.foldl (fun n c => n * 10 + (c.toNat - '0'.toNat)) 0)
    let n := if negative then -n else n
    if -0x8000000000000000 ≤ n ∧ n < 0x8000000000000000 then
      match (s.dropWhile Char.isDigit).dropWhile isSpace with
      | ']' :: s => .ok (n, s)
      | _ => .error .noStep
    else .error .indexTooLarge

/-- The steps after the first one, `fuel` at most. -/
def steps : (fuel : Nat) → Text → Except PathFault (List Step)
  | _, [] => .ok []
  | 0, _ => .error .noStep
  | fuel + 1, '.' :: s =>
    match identifier? s with
    | some (name, s) => do return .member name :: (← steps fuel s)
    | none => .error .noStep
  | fuel + 1, '[' :: s => do
    let (n, s) ← index s
    return .item n :: (← steps fuel s)
  | _, _ => .error .noStep

/-- The steps of a path. -/
def parse (s : Text) : Except PathFault (List Step) :=
  match identifier? s with
  | some (name, rest) => do return .member name :: (← steps rest.length rest)
  | none => .error .noIdentifier

end Path

namespace Value

/-- The position an index stands for in a list : from the end if it is negative. -/
def position (index : Int) (length : Nat) : Nat :=
  match index with
  | .ofNat n => n
  | .negSucc n => length - (n + 1)

/-- The value `v` set at a path in another one. Where a name is wanted, what is no table becomes
an empty one; where an index is wanted, what is no list becomes an empty one, which grows as
far as it must. -/
def setAt (v : Value) : List Step → Value → Value
  | [], _ => v
  | [.member name], current =>
    match current with
    | table members file => table (assign name v members) file
    | _ => table (assign name v []) none
  | .member name :: path, current =>
    let name := Text.lower name
    match current with
    | table members file =>
      let inner := (Members.get? name members).getD missing
      table (Members.put name (setAt v path inner) members) file
    | _ => table [(name, setAt v path missing)] none
  | .item index :: path, current =>
    let (items, file) := match current with
      | list items file => (items, file)
      | _ => ([], none)
    let i := position index items.length
    let items := items ++ List.replicate (i + 1 - items.length) missing
    list (items.set i (setAt v path (items[i]?.getD missing))) file

end Value

end Rulebook.Settings
