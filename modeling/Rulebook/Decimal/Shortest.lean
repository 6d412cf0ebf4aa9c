import Rulebook.Decimal.Binary64

/-!
# Shortest decimal digits

A positive `Binary64` number is the nearest one to every fraction in an interval around it,
so any decimal fraction there names it. `shortest` takes one with as few digits as
possible, of those the nearest to the number, and of two equally near ones the greater.
-/

namespace Rulebook.Binary64

/-- Whether the fraction `x` is read as the number `m * 2 ^ q` : it lies between the middles
to the two neighbours, the middles included if `m` is even. -/
def readsAs (m : Nat) (q : Int) (x : Rat) : Bool :=
  let value := scaled m q
  let gapBelow := if m = leastFull ∧ minExponent < q then q - 2 else q - 1
  let low := value - twoPow gapBelow
  let high := value + twoPow (q - 1)
  if m % 2 = 0 then low ≤ x && x ≤ high else low < x && x < high
where
  /-- The least significand of full precision : below it the numbers lie twice as close. -/
  leastFull : Nat := 1 <<< (precision - 1)

/-- The multiple of `10 ^ k` that is read as the number, if one of the two next to it is. -/
def onGrid (m : Nat) (q k : Int) : Option Nat :=
  let unit := (10 : Rat) ^ k
  let value := scaled m q / unit
  let below := value.floor.toNat
  let above := below + 1
  let fits (n : Nat) : Bool := readsAs m q (mkRat n 1 * unit)
  match fits below, fits above with
  | true, true => if value - mkRat below 1 < mkRat above 1 - value then some below else some above
  | true, false => some below
  | false, true => some above
  | false, false => none

/-- Digits `n` and a power `k` such that `n * 10 ^ k` names the positive number `m * 2 ^ q` with as
few digits as possible. -/
def shortest (m : Nat) (q : Int) : Nat × Int :=
  let grids : List Int := (List.range 700).map fun (i : Nat) => 320 - Int.ofNat i
  (grids.findSome? fun k => (onGrid m q k).map fun n => (n, k)).getD (0, 0)

end Rulebook.Binary64
