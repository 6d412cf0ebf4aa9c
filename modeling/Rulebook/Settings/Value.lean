import Rulebook.Members
import Rulebook.Path
import Rulebook.Settings.Datum
import Rulebook.Text.Lowercase
import Rulebook.Toml.Value

/-!
# Values of settings

What a layer can give under a name : a single datum, a list, or a table. A value remembers
the file it came from; a default, an override, and a table that was put together have
none. `Value.assign` sets a value among the members of a table.
-/

namespace Rulebook.Settings

/-- A value with the name of the file it came from. -/
inductive Value where
  | datum (d : Datum) (file : Option Path)
  | list (items : List Value) (file : Option Path)
  | table (members : List (Text × Value)) (file : Option Path)
  deriving Repr

namespace Value

mutual

/-- Whether two values are the same, with the files they came from. -/
def decEq : (v w : Value) → Decidable (v = w)
  | datum d file, datum d' file' =>
    decidable_of_iff (d = d' ∧ file = file') (by rw [datum.injEq])
  | list items file, list items' file' =>
    have := decEqItems items items'
    decidable_of_iff (items = items' ∧ file = file') (by rw [list.injEq])
  | table members file, table members' file' =>
    have := decEqMembers members members'
    decidable_of_iff (members = members' ∧ file = file') (by rw [table.injEq])
  | datum .., list .. | datum .., table .. | list .., datum .. | list .., table ..
  | table .., datum .. | table .., list .. => isFalse nofun

/-- Whether the items of two lists are the same. -/
def decEqItems : (items items' : List Value) → Decidable (items = items')
  | [], [] => isTrue rfl
  | v :: rest, w :: rest' =>
    have := decEq v w
    have := decEqItems rest rest'
    decidable_of_iff (v = w ∧ rest = rest') (by rw [List.cons.injEq])
  | [], _ :: _ | _ :: _, [] => isFalse nofun

/-- Whether the members of two tables are the same, in the same order. -/
def decEqMembers : (members members' : List (Text × Value)) → Decidable (members = members')
  | [], [] => isTrue rfl
  | (name, v) :: rest, (name', w) :: rest' =>
    have := decEq v w
    have := decEqMembers rest rest'
    decidable_of_iff ((name = name' ∧ v = w) ∧ rest = rest') (by
      rw [List.cons.injEq, Prod.mk.injEq])
  | [], _ :: _ | _ :: _, [] => isFalse nofun

end

instance : DecidableEq Value := decEq

/-- The file that the value came from. -/
def file : Value → Option Path
  | datum _ file | list _ file | table _ file => file

/-- No value, from nowhere. -/
def missing : Value := datum .unit none

mutual

/-- A value of a TOML file. -/
def ofToml (file : Option Path) : Toml.Value → Value
  | .string s | .moment s => datum (.string s) file
  | .integer n => datum (.integer n) file
  | .float x => datum (.float x) file
  | .boolean b => datum (.boolean b) file
  | .array items => list (ofTomlItems file items) file
  | .table members => table (ofTomlMembers file members) file

/-- The items of an array of a TOML file. -/
def ofTomlItems (file : Option Path) : List Toml.Value → List Value
  | [] => []
  | v :: rest => ofToml file v :: ofTomlItems file rest

/-- The members of a table of a TOML file. -/
def ofTomlMembers (file : Option Path) : List (Text × Toml.Value) → List (Text × Value)
  | [] => []
  | (name, v) :: rest => (name, ofToml file v) :: ofTomlMembers file rest

end

/-! ## Setting a member -/

mutual

/-- The members with a value set under a name, which counts in lower case. A table is set member
by member into the table that is there; it makes one where there is none, but an empty table
does not replace another value. Any other value replaces what is there. -/
def assign (name : Text) (v : Value) (members : List (Text × Value)) : List (Text × Value) :=
  let name := Text.lower name
  match v with
  | table incoming _ =>
    match Members.get? name members with
    | some (table old file) => Members.put name (table (assignAll incoming old) file) members
    | none => Members.put name (table (assignAll incoming []) none) members
    | some _ =>
      if incoming.isEmpty then members
      else Members.put name (table (assignAll incoming []) none) members
  | datum d file => Members.put name (datum d file) members
  | list items file => Members.put name (list items file) members
termination_by structural v

/-- The members with others set one after another, in the order that these are in. -/
def assignAll (incoming members : List (Text × Value)) : List (Text × Value) :=
  match incoming with
  | [] => members
  | (name, v) :: rest => assignAll rest (assign name v members)
termination_by structural incoming

end

/-- What a value is. -/
def described : Value → String
  | datum d _ => d.described
  | list .. => "sequence"
  | table .. => "map"

end Value

end Rulebook.Settings
