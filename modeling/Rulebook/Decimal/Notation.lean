import Rulebook.Decimal.Shortest
import Rulebook.Text.Basic

/-!
# Numbers as text

A `Binary64` number is written with its shortest digits and without an exponent. An integer
has no point then; `toTextWithPoint` writes `.0` after it.
-/

namespace Rulebook.Binary64

/-- The digits of an integer. -/
def digits (n : Nat) : Text := Nat.toDigits 10 n

/-- The fraction `n * 10 ^ k` written out. -/
def positional (n : Nat) (k : Int) : Text :=
  match k with
  | .ofNat zeros => digits n ++ List.replicate zeros '0'
  | .negSucc places =>
    let ds := digits n
    let width := places + 1
    let padded := List.replicate (width + 1 - ds.length) '0' ++ ds
    let whole := padded.length - width
    padded.take whole ++ '.' :: padded.drop whole

/-- The sign of a negative number. -/
def sign (negative : Bool) : Text := if negative then ['-'] else []

/-- A number in its shortest form. -/
def toText : Binary64 → Text
  | nan => ['N', 'a', 'N']
  | infinity negative => sign negative ++ ['i', 'n', 'f']
  | finite negative 0 _ => sign negative ++ ['0']
  | finite negative m q =>
    let (n, k) := shortest m q
    sign negative ++ positional n k

/-- A number in its shortest form with at least one place after the point. -/
def toTextWithPoint (x : Binary64) : Text :=
  match x with
  | finite .. => if '.' ∈ x.toText then x.toText else x.toText ++ ['.', '0']
  | _ => x.toText

end Rulebook.Binary64
