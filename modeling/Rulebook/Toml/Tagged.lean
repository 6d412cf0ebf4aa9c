import Rulebook.Toml.Moment
import Rulebook.Toml.Value

/-!
# TOML tables that stand for moments

A table whose first name is `$__toml_private_datetime` is no table : it stands for the moment
that the string under this name writes, and nothing else in it counts. `Value.untag?` puts
the moment in the place of each such table, and fails where the tag has no moment.
-/

namespace Rulebook.Toml.Value

/-- The first name of a table that stands for a moment. -/
def momentTag : Text := "$__toml_private_datetime".toList

/-- What stands under the tag, in the members of a table that stands for a moment. -/
def tagged? : List (Text × Value) → Option Value
  | (name, v) :: _ => if name = momentTag then some v else none
  | [] => none

/-- The moment that a value under the tag stands for. -/
def taggedMoment? : Value → Option Value
  | string s => (momentOfString? s).map moment
  | _ => none

mutual

/-- The value with moments in the place of the tables that stand for them. -/
def untag? : Value → Option Value
  | array items => (untagItems? items).map array
  | table members =>
    match tagged? members with
    | some v => taggedMoment? v
    | none => (untagMembers? members).map table
  | v => some v

/-- The items, each with moments in the place of such tables. -/
def untagItems? : List Value → Option (List Value)
  | [] => some []
  | v :: rest => do return (← untag? v) :: (← untagItems? rest)

/-- The members, their values with moments in the place of such tables. -/
def untagMembers? : List (Text × Value) → Option (List (Text × Value))
  | [] => some []
  | (name, v) :: rest => do return (name, ← untag? v) :: (← untagMembers? rest)

end

end Rulebook.Toml.Value
