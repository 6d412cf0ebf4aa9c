import Rulebook.Decimal.Notation
import Rulebook.Text.Quoted

/-!
# Data in settings

A single datum that a layer gives, and how messages describe it.
-/

namespace Rulebook.Settings

/-- A single datum. -/
inductive Datum where
  | unit
  | boolean (b : Bool)
  | integer (n : Int)
  | float (x : Binary64)
  | string (s : Text)
  deriving DecidableEq, Repr

namespace Datum

/-- The least integer that no signed word of 64 bits holds. -/
def signedLimit : Int := 0x8000000000000000

/-- What a datum is, with the width of an integer. -/
def described : Datum → String
  | unit => "unit value"
  | boolean b => "boolean `" ++ toString b ++ "`"
  | integer n =>
    let width := if n < signedLimit then "64-bit integer" else "64-bit unsigned integer"
    width ++ " `" ++ toString n ++ "`"
  | float x => "floating point `" ++ .ofList x.toText ++ "`"
  | string s => "string " ++ .ofList (Text.quoted s)

/-- What a datum is, without the width of an integer and with a point in a number that is none. -/
def describedPlainly : Datum → String
  | integer n => "integer `" ++ toString n ++ "`"
  | float x => "floating point `" ++ .ofList x.toTextWithPoint ++ "`"
  | d => d.described

end Datum

end Rulebook.Settings
