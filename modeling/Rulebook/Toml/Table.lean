import Rulebook.Members
import Rulebook.Toml.Value

/-!
# How TOML tables come about

Statements define tables bit by bit. A table is defined by a header of its own, or it comes
about because the header of a table below it or a dotted key passes through it, and what
may be added to it later depends on that. A name that is in use is not defined again :
`addPair?` and `addTable?` give nothing then.
-/

namespace Rulebook.Toml

/-- A key : the names of the tables it passes through, and its own name. -/
structure Key where
  parents : List Text
  name : Text
  deriving DecidableEq, Repr

/-- How a table came about. -/
inductive Definition where
  /-- By a header of its own. -/
  | explicit
  /-- By a header of a table below it. -/
  | implied
  /-- By a dotted key. -/
  | dotted
  deriving DecidableEq, Repr

/-- A part of a document while statements are added. -/
inductive Draft where
  | value (v : Value)
  | table (definition : Definition) (members : List (Text × Draft))
  /-- Tables under one name, each with a header of its own. -/
  | tables (elements : List Draft)

namespace Draft

mutual

/-- The value of a part when all is added. -/
def toValue : Draft → Value
  | value v => v
  | table _ members => .table (membersToValues members)
  | tables elements => .array (elementsToValues elements)

/-- The members with their values when all is added. -/
def membersToValues : List (Text × Draft) → List (Text × Value)
  | [] => []
  | (name, draft) :: rest => (name, toValue draft) :: membersToValues rest

/-- The elements with their values when all is added. -/
def elementsToValues : List Draft → List Value
  | [] => []
  | draft :: rest => toValue draft :: elementsToValues rest

end

/-- A list with its last element changed, if it has one and the change is possible. -/
def changeLast? (change : Draft → Option Draft) : List Draft → Option (List Draft)
  | [] => none
  | [last] => (change last).map fun last => [last]
  | first :: rest => (changeLast? change rest).map (first :: ·)

/-- Adds a value under a name that the tables `parents` lead to, from a table that came about in
the given way. The tables that are passed through must have no header of their own, except
that the last of several tables under one name may have; the table that the value comes
into must be dotted, as which the one of the current header counts. -/
def addPair? (name : Text) (v : Value) :
    (parents : List Text) → Definition → List (Text × Draft) → Option (List (Text × Draft))
  | [], definition, members =>
    if definition = .dotted ∧ (Members.get? name members).isNone then
      some (Members.put name (.value v) members)
    else none
  | parent :: parents, _, members =>
    match Members.get? parent members with
    | none => do
      let inner ← addPair? name v parents .dotted []
      return Members.put parent (.table .dotted inner) members
    | some (.table definition inner) =>
      if definition = .explicit then none
      else do
        let inner ← addPair? name v parents definition inner
        return Members.put parent (.table definition inner) members
    | some (.tables elements) => do
      let elements ← changeLast?
        (fun element =>
          match element with
          | .table definition inner =>
            (addPair? name v parents definition inner).map (Draft.table definition)
          | _ => none)
        elements
      return Members.put parent (.tables elements) members
    | some (.value _) => none

/-- Adds pairs to the current table. -/
def addPairs? (pairs : List (Key × Value)) (members : List (Text × Draft)) :
    Option (List (Text × Draft)) :=
  pairs.foldlM (fun members (key, v) => addPair? key.name v key.parents .dotted members) members

/-- Adds the table of a header with its pairs, or one more of several tables under one name. A
table that came about before its header moves behind the other members. -/
def addTable? (several : Bool) (pairs : List (Key × Value)) (name : Text) :
    (parents : List Text) → List (Text × Draft) → Option (List (Text × Draft))
  | [], members =>
    match Members.get? name members, several with
    | none, false => do
      return Members.put name (.table .explicit (← addPairs? pairs [])) members
    | some (.table .implied inner), false => do
      let inner ← addPairs? pairs inner
      return Members.put name (.table .explicit inner) (Members.erase name members)
    | none, true => do
      return Members.put name (.tables [.table .explicit (← addPairs? pairs [])]) members
    | some (.tables elements), true => do
      let element := .table .explicit (← addPairs? pairs [])
      return Members.put name (.tables (elements ++ [element])) members
    | _, _ => none
  | parent :: parents, members =>
    match Members.get? parent members with
    | none => do
      let inner ← addTable? several pairs name parents []
      return Members.put parent (.table .implied inner) members
    | some (.table definition inner) => do
      let inner ← addTable? several pairs name parents inner
      return Members.put parent (.table definition inner) members
    | some (.tables elements) => do
      let elements ← changeLast?
        (fun element =>
          match element with
          | .table definition inner =>
            (addTable? several pairs name parents inner).map (Draft.table definition)
          | _ => none)
        elements
      return Members.put parent (.tables elements) members
    | some (.value _) => none

end Draft

end Rulebook.Toml
