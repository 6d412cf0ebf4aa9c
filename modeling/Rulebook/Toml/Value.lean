import Rulebook.Decimal.Binary64
import Rulebook.Text.Basic

/-!
# TOML values

What a TOML document holds. A date or a time is kept as the text of its normal form.
-/

namespace Rulebook.Toml

/-- A value of a document. -/
inductive Value where
  | string (s : Text)
  | integer (n : Int)
  | float (x : Binary64)
  | boolean (b : Bool)
  | moment (s : Text)
  | array (items : List Value)
  | table (members : List (Text × Value))
  deriving Repr

end Rulebook.Toml
