import Rulebook.Toml.Layout

/-!
# TOML strings

The four kinds of strings : on one line or over several, with escapes between double quotes or
as they stand between single ones. A line end in a string over several lines counts as a
line feed, and one right after the opening is left out.
-/

namespace Rulebook.Toml

/-! ## Escapes -/

/-- The value of a hexadecimal digit. -/
def hexValue? (c : Char) : Option Nat :=
  if '0' ≤ c ∧ c ≤ '9' then some (c.toNat - '0'.toNat)
  else if 'a' ≤ c ∧ c ≤ 'f' then some (c.toNat - 'a'.toNat + 10)
  else if 'A' ≤ c ∧ c ≤ 'F' then some (c.toNat - 'A'.toNat + 10)
  else none

/-- The character whose code point the digits give, if it is one. -/
def charOfHex? (digits : Text) : Option Char := do
  let n ← digits.foldlM (fun n c => (hexValue? c).map fun d => n * 16 + d) 0
  if n.isValidChar then some (.ofNat n) else none

/-- The character that a letter after a backslash stands for. -/
def escaped? : Char → Option Char
  | 'b' => some '\x08'
  | 't' => some '\t'
  | 'n' => some '\n'
  | 'f' => some '\x0c'
  | 'r' => some '\r'
  | '"' => some '"'
  | '\\' => some '\\'
  | _ => none

/-- The text with `c` put in front of what was read. -/
def push (c : Char) : Text × Text → Text × Text
  | (read, rest) => (c :: read, rest)

/-! ## Double quotes -/

/-- A string on one line, after its opening quote. -/
def basic? : Text → Option (Text × Text)
  | '"' :: s => some ([], s)
  | '\\' :: 'u' :: a :: b :: c :: d :: s => do
    return push (← charOfHex? [a, b, c, d]) (← basic? s)
  | '\\' :: 'U' :: a :: b :: c :: d :: e :: f :: g :: h :: s => do
    return push (← charOfHex? [a, b, c, d, e, f, g, h]) (← basic? s)
  | '\\' :: c :: s => do return push (← escaped? c) (← basic? s)
  | c :: s => if isPlain c then (basic? s).map (push c) else none
  | [] => none

/-- A string over several lines, after its opening quotes. While `skipping`, after a backslash
at the end of a line, blanks and line ends are left out. -/
def basicLines? (skipping : Bool) : Text → Option (Text × Text)
  | '"' :: '"' :: '"' :: '"' :: '"' :: s => some (['"', '"'], s)
  | '"' :: '"' :: '"' :: '"' :: s => some (['"'], s)
  | '"' :: '"' :: '"' :: s => some ([], s)
  | '\\' :: 'u' :: a :: b :: c :: d :: s => do
    return push (← charOfHex? [a, b, c, d]) (← basicLines? false s)
  | '\\' :: 'U' :: a :: b :: c :: d :: e :: f :: g :: h :: s => do
    return push (← charOfHex? [a, b, c, d, e, f, g, h]) (← basicLines? false s)
  | '\\' :: c :: s =>
    if isSpace c ∨ c = '\n' ∨ c = '\r' then
      if (newline? (skipSpaces (c :: s))).isSome then basicLines? true s else none
    else do return push (← escaped? c) (← basicLines? false s)
  | '\r' :: '\n' :: s =>
    if skipping then basicLines? true s else (basicLines? false s).map (push '\n')
  | '\n' :: s => if skipping then basicLines? true s else (basicLines? false s).map (push '\n')
  | c :: s =>
    if skipping ∧ isSpace c then basicLines? true s
    else if isPlain c then (basicLines? false s).map (push c)
    else none
  | [] => none

/-! ## Single quotes -/

/-- A string on one line, after its opening quote. -/
def literal? : Text → Option (Text × Text)
  | '\'' :: s => some ([], s)
  | c :: s => if isPlain c then (literal? s).map (push c) else none
  | [] => none

/-- A string over several lines, after its opening quotes. -/
def literalLines? : Text → Option (Text × Text)
  | '\'' :: '\'' :: '\'' :: '\'' :: '\'' :: s => some (['\'', '\''], s)
  | '\'' :: '\'' :: '\'' :: '\'' :: s => some (['\''], s)
  | '\'' :: '\'' :: '\'' :: s => some ([], s)
  | '\r' :: '\n' :: s => (literalLines? s).map (push '\n')
  | '\n' :: s => (literalLines? s).map (push '\n')
  | c :: s => if isPlain c then (literalLines? s).map (push c) else none
  | [] => none

/-- The text without a line end in front. -/
def afterOpening (s : Text) : Text := (newline? s).getD s

/-- A string on one line. -/
def lineString? : Text → Option (Text × Text)
  | '"' :: s => basic? s
  | '\'' :: s => literal? s
  | _ => none

/-- A string of any kind. -/
def string? : Text → Option (Text × Text)
  | '"' :: '"' :: '"' :: s => basicLines? false (afterOpening s)
  | '\'' :: '\'' :: '\'' :: s => literalLines? (afterOpening s)
  | s => lineString? s

end Rulebook.Toml
