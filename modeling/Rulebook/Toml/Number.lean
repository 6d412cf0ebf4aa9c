import Rulebook.Toml.Strings
import Rulebook.Toml.Value

/-!
# TOML numbers

Integers of 64 bits, in decimal digits with an optional sign or in hexadecimal, octal or
binary digits, and floating point numbers. Single underscores may stand between digits.
-/

namespace Rulebook.Toml

/-- The digits after the first one of a number, without underscores. -/
def moreDigits? (isDigit : Char → Bool) : Text → Option (Text × Text)
  | ['_'] => none
  | '_' :: c :: s => if isDigit c then (moreDigits? isDigit s).map (push c) else none
  | c :: s => if isDigit c then (moreDigits? isDigit s).map (push c) else some ([], c :: s)
  | [] => some ([], [])

/-- One digit or more, without the underscores between them. -/
def digits? (isDigit : Char → Bool) : Text → Option (Text × Text)
  | c :: s => if isDigit c then (moreDigits? isDigit s).map (push c) else none
  | [] => none

/-- The integer that digits give in a base. -/
def ofDigits (base : Nat) (digits : Text) : Nat :=
  digits.foldl (fun n c => n * base + (hexValue? c).getD 0) 0

/-- An integer, if it is one of 64 bits. -/
def int64? (n : Int) : Option Value :=
  if -0x8000000000000000 ≤ n ∧ n < 0x8000000000000000 then some (.integer n) else none

/-- An integer in another base, after its prefix. -/
def based? (base : Nat) (s : Text) : Option (Value × Text) := do
  let (ds, s) ← digits? (fun c => ((hexValue? c).getD base) < base) s
  return (← int64? (ofDigits base ds), s)

/-- The optional sign of a number : whether it is negative. -/
def sign : Text → Bool × Text
  | '-' :: s => (true, s)
  | '+' :: s => (false, s)
  | s => (false, s)

/-- An integer part : a single zero, or digits that do not start with one. -/
def whole? : Text → Option (Text × Text)
  | '0' :: s => some (['0'], s)
  | s => digits? Char.isDigit s

/-- The places after a point, where there is one. -/
def fraction? : Text → Option (Text × Text)
  | '.' :: s => digits? Char.isDigit s
  | s => some ([], s)

/-- The power of ten of an exponent, where there is one. -/
def exponent? : Text → Option (Option Int × Text)
  | c :: s =>
    if c = 'e' ∨ c = 'E' then do
      let (negative, s) := sign s
      let (ds, s) ← digits? Char.isDigit s
      let n := Int.ofNat (ofDigits 10 ds)
      return (some (if negative then -n else n), s)
    else some (none, c :: s)
  | [] => some (none, [])

/-- A number with a fraction or an exponent. One that is too large is refused, but one that is
too far below zero is minus infinity. -/
def float? (negative : Bool) (whole places : Text) (power : Int) : Option Value :=
  let ds := whole ++ places
  match Binary64.ofDecimal negative (ofDigits 10 ds) ds.length (power - places.length) with
  | .infinity false => none
  | x => some (.float x)

/-- A number in decimal digits, or one of the special ones, after its sign. -/
def decimal? (negative : Bool) : Text → Option (Value × Text)
  | 'i' :: 'n' :: 'f' :: s => some (.float (.infinity negative), s)
  | 'n' :: 'a' :: 'n' :: s => some (.float .nan, s)
  | s => do
    let (ds, s) ← whole? s
    let (places, s) ← fraction? s
    let (power, s) ← exponent? s
    if places = [] ∧ power = none then
      let n := Int.ofNat (ofDigits 10 ds)
      return (← int64? (if negative then -n else n), s)
    else return (← float? negative ds places (power.getD 0), s)

/-- A number. -/
def number? : Text → Option (Value × Text)
  | '0' :: 'x' :: s => based? 16 s
  | '0' :: 'o' :: s => based? 8 s
  | '0' :: 'b' :: s => based? 2 s
  | s =>
    let (negative, s) := sign s
    decimal? negative s

end Rulebook.Toml
