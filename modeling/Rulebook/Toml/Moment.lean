import Rulebook.Toml.Layout

/-!
# TOML dates and times

A date, a time, or both with an optional offset, each part in a fixed number of digits and in
its range. The normal form has a `T` between date and time and a `Z` for no offset, and it keeps
nine places of a second without zeros at their end. `moment?` reads a moment in front of a text,
`momentOfString?` one that is the whole text.
-/

namespace Rulebook.Toml

/-- The number that two digits in front give, from `low` to `high`, with the digits. -/
def twoDigits? (low high : Nat) : Text → Option (Nat × Text × Text)
  | a :: b :: s =>
    if a.isDigit ∧ b.isDigit then
      let n := (a.toNat - '0'.toNat) * 10 + (b.toNat - '0'.toNat)
      if low ≤ n ∧ n ≤ high then some (n, [a, b], s) else none
    else none
  | _ => none

/-- How many days a month has. -/
def daysOf (year month : Nat) : Nat :=
  if month = 2 then
    if year % 4 = 0 ∧ (year % 100 ≠ 0 ∨ year % 400 = 0) then 29 else 28
  else if month = 4 ∨ month = 6 ∨ month = 9 ∨ month = 11 then 30
  else 31

/-- A date of four, two and two digits. -/
def date? (s : Text) : Option (Text × Text) := do
  let (century, century', s) ← twoDigits? 0 99 s
  let (year, year', s) ← twoDigits? 0 99 s
  let s ← Text.after? ['-'] s
  let (month, month', s) ← twoDigits? 1 12 s
  let s ← Text.after? ['-'] s
  let (_, day', s) ← twoDigits? 1 (daysOf (century * 100 + year) month) s
  return (century' ++ year' ++ '-' :: month' ++ '-' :: day', s)

/-- The places of a second in normal form, after the point. -/
def normalPlaces (places : Text) : Text :=
  match ((places.take 9).reverse.dropWhile (· = '0')).reverse with
  | [] => []
  | places => '.' :: places

/-- A time of three times two digits, with places of the second if there is a point. -/
def time? (s : Text) : Option (Text × Text) := do
  let (_, hour', s) ← twoDigits? 0 23 s
  let s ← Text.after? [':'] s
  let (_, minute', s) ← twoDigits? 0 59 s
  let s ← Text.after? [':'] s
  let (_, second', s) ← twoDigits? 0 60 s
  let time := hour' ++ ':' :: minute' ++ ':' :: second'
  match s with
  | '.' :: c :: s =>
    if c.isDigit then
      let s := c :: s
      return (time ++ normalPlaces (s.takeWhile Char.isDigit), s.dropWhile Char.isDigit)
    else return (time, '.' :: c :: s)
  | s => return (time, s)

/-- An offset in normal form, or nothing where there is none. -/
def offset (s : Text) : Text × Text :=
  let hoursAndMinutes (negative : Bool) (s : Text) : Option (Text × Text) := do
    let (hours, hours', s) ← twoDigits? 0 23 s
    let s ← Text.after? [':'] s
    let (minutes, minutes', s) ← twoDigits? 0 59 s
    let mark := if negative ∧ (hours ≠ 0 ∨ minutes ≠ 0) then '-' else '+'
    return (mark :: hours' ++ ':' :: minutes', s)
  match s with
  | 'Z' :: rest | 'z' :: rest => (['Z'], rest)
  | '+' :: rest => (hoursAndMinutes false rest).getD ([], s)
  | '-' :: rest => (hoursAndMinutes true rest).getD ([], s)
  | s => ([], s)

/-- The time, with an optional offset, that may follow a date. -/
def timeOfDay? : Text → Option (Text × Text)
  | c :: s =>
    if c = 'T' ∨ c = 't' ∨ c = ' ' then do
      let (time, s) ← time? s
      let (mark, s) := offset s
      return ('T' :: time ++ mark, s)
    else none
  | [] => none

/-- A date, a time, or both, in normal form. -/
def moment? (s : Text) : Option (Text × Text) :=
  match date? s with
  | some (date, s) =>
    match timeOfDay? s with
    | some (time, s) => some (date ++ time, s)
    | none => some (date, s)
  | none => time? s

/-- The moment that a whole string writes, in normal form. -/
def momentOfString? (s : Text) : Option Text :=
  match moment? s with
  | some (t, []) => some t
  | _ => none

example : momentOfString? "1979-05-27 07:32:00.50-00:00".toList
    = some "1979-05-27T07:32:00.5+00:00".toList := by decide +kernel

end Rulebook.Toml
