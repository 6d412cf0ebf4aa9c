import Rulebook.Toml.Strings

/-!
# JSON values

What a JSON text says, and a reader of such texts that knows nothing of how they are written
here. Blanks may stand between any two parts, a character of a string may stand as it is or be
escaped in every way there is, a pair of surrogates included, and numbers are kept as they
stand. The members of an object are kept in their order, also under names that are alike.
-/

namespace Rulebook

/-- A JSON value. -/
inductive Json where
  | null
  | boolean (b : Bool)
  | number (literal : Text)
  | string (s : Text)
  | array (items : List Json)
  | object (members : List (Text × Json))
  deriving Repr

namespace Json

open Text

/-- A blank between the parts of a text. -/
def isSpace (c : Char) : Bool := c = ' ' || c = '\t' || c = '\n' || c = '\r'

/-- The text behind the blanks at its start. -/
def skip (s : Text) : Text := s.dropWhile isSpace

/-! ## Strings -/

/-- The number that four hexadecimal digits make, and the rest. -/
def unit? : Text → Option (Nat × Text)
  | a :: b :: c :: d :: s => do
    let n ← [a, b, c, d].foldlM (fun n c => (Toml.hexValue? c).map fun d => n * 16 + d) 0
    return (n, s)
  | _ => none

/-- A character by its number, or by the two numbers of a surrogate pair. -/
def numbered? (s : Text) : Option (Char × Text) := do
  let (n, s) ← unit? s
  if n < 0xD800 ∨ 0xDFFF < n then return (.ofNat n, s)
  else
    let (m, s) ← unit? (← after? ['\\', 'u'] s)
    if n < 0xDC00 ∧ 0xDC00 ≤ m ∧ m ≤ 0xDFFF then
      return (.ofNat (0x10000 + (n - 0xD800) * 0x400 + (m - 0xDC00)), s)
    else none

/-- The characters that letters after a backslash stand for. -/
def escapes : List (Char × Char) :=
  [('"', '"'), ('\\', '\\'), ('/', '/'), ('b', '\x08'), ('f', '\x0c'), ('n', '\n'), ('r', '\r'),
   ('t', '\t')]

/-- One character of a string, as it stands or escaped. -/
def char? : Text → Option (Char × Text)
  | [] => none
  | '\\' :: 'u' :: s => numbered? s
  | '\\' :: c :: s => (escapes.lookup c).map fun c => (c, s)
  | c :: s => if c.toNat < 0x20 ∨ c = '"' ∨ c = '\\' then none else some (c, s)

theorem length_lt_of_unit? {s rest : Text} {n : Nat} (h : unit? s = some (n, rest)) :
    rest.length < s.length := by
  unfold unit? at h
  split at h
  · simp only [Option.bind_eq_bind, Option.bind_eq_some_iff, Option.pure_def, Option.some.injEq,
      Prod.mk.injEq] at h
    obtain ⟨_, -, -, rfl⟩ := h
    simp only [List.length_cons]
    omega
  · simp at h

theorem length_lt_of_numbered? {s rest : Text} {c : Char} (h : numbered? s = some (c, rest)) :
    rest.length < s.length := by
  simp only [numbered?, Option.bind_eq_bind, Option.bind_eq_some_iff, Prod.exists] at h
  obtain ⟨n, s₁, hunit, h⟩ := h
  have hlen := length_lt_of_unit? hunit
  split at h
  · obtain ⟨-, rfl⟩ := Prod.mk.inj (Option.some.inj h)
    exact hlen
  · simp only [Option.bind_eq_some_iff, Prod.exists] at h
    obtain ⟨s₂, hafter, m, s₃, hunit₂, h⟩ := h
    have hlen₂ := length_lt_of_unit? hunit₂
    obtain rfl := after?_eq_some_iff.1 hafter
    split at h
    · obtain ⟨-, rfl⟩ := Prod.mk.inj (Option.some.inj h)
      simp only [List.length_append] at hlen
      omega
    · simp at h

theorem length_lt_of_char? {s rest : Text} {c : Char} (h : char? s = some (c, rest)) :
    rest.length < s.length := by
  unfold char? at h
  split at h
  · simp at h
  · have := length_lt_of_numbered? h
    simp only [List.length_cons]
    omega
  · obtain ⟨_, -, heq⟩ := Option.map_eq_some_iff.1 h
    obtain ⟨-, rfl⟩ := Prod.mk.inj heq
    simp only [List.length_cons]
    omega
  · simp only [Option.ite_none_left_eq_some, Option.some.injEq, Prod.mk.injEq] at h
    obtain ⟨-, -, rfl⟩ := h
    simp

/-- The characters up to the closing quote. -/
def body? (s : Text) : Option (Text × Text) :=
  match _h : char? s with
  | some (c, rest) => (body? rest).map fun (cs, rest) => (c :: cs, rest)
  | none => (after? ['"'] s).map fun rest => ([], rest)
termination_by s.length
decreasing_by exact length_lt_of_char? _h

theorem body?_of_char?_some {s rest : Text} {c : Char} (h : char? s = some (c, rest)) :
    body? s = (body? rest).map fun (cs, rest) => (c :: cs, rest) := by
  rw [body?]
  split
  · next heq =>
    rw [h] at heq
    obtain ⟨rfl, rfl⟩ := Prod.mk.inj (Option.some.inj heq)
    rfl
  · simp_all

theorem body?_of_char?_none {s : Text} (h : char? s = none) :
    body? s = (after? ['"'] s).map fun rest => ([], rest) := by
  rw [body?]
  split
  · simp_all
  · rfl

/-- A string with its quotes, and the rest. -/
def string? (s : Text) : Option (Text × Text) := do body? (← after? ['"'] s)

/-! ## Numbers -/

/-- The text after one digit or more. -/
def afterDigits? (s : Text) : Option Text :=
  if s.head?.any Char.isDigit then some (s.dropWhile Char.isDigit) else none

/-- The text after a number : digits, the first of them no zero before others, then a fraction and
an exponent, if there are any. -/
def afterNumber? (s : Text) : Option Text := do
  let s := (after? ['-'] s).getD s
  let s ← match s with
    | '0' :: s => some s
    | s => afterDigits? s
  let s ← match s with
    | '.' :: s => afterDigits? s
    | s => some s
  match s with
  | 'e' :: s | 'E' :: s => afterDigits? (((after? ['+'] s).or (after? ['-'] s)).getD s)
  | s => some s

/-! ## Values -/

/-- Items with commas between them up to the closing character, in `fuel` steps at most. -/
def items? {α : Type} (item? : Text → Option (α × Text)) (closing : Char) :
    (fuel : Nat) → Text → Option (List α × Text)
  | 0, _ => none
  | fuel + 1, s => do
    let (a, s) ← item? (skip s)
    match skip s with
    | ',' :: s =>
      let (as, s) ← items? item? closing fuel s
      return (a :: as, s)
    | s =>
      let s ← after? [closing] s
      return ([a], s)

/-- Items up to the closing character, which may come at once. -/
def enclosed? {α : Type} (item? : Text → Option (α × Text)) (closing : Char) (s : Text) :
    Option (List α × Text) :=
  match after? [closing] (skip s) with
  | some s => some ([], s)
  | none => items? item? closing (s.length + 1) s

/-- A member of an object : a name, a colon and a value. -/
def member? (value? : Text → Option (Json × Text)) (s : Text) :
    Option ((Text × Json) × Text) := do
  let (name, s) ← string? s
  let s ← after? [':'] (skip s)
  let (v, s) ← value? (skip s)
  return ((name, v), s)

/-- A value, with arrays and objects nested at most `depth` deep. -/
def value? (depth : Nat) (s : Text) : Option (Json × Text) :=
  match s with
  | '"' :: _ => (string? s).map fun (t, s) => (.string t, s)
  | '[' :: s =>
    match depth with
    | 0 => none
    | depth + 1 => (enclosed? (value? depth) ']' s).map fun (vs, s) => (.array vs, s)
  | '{' :: s =>
    match depth with
    | 0 => none
    | depth + 1 => (enclosed? (member? (value? depth)) '}' s).map fun (ms, s) => (.object ms, s)
  | 'n' :: 'u' :: 'l' :: 'l' :: s => some (.null, s)
  | 't' :: 'r' :: 'u' :: 'e' :: s => some (.boolean true, s)
  | 'f' :: 'a' :: 'l' :: 's' :: 'e' :: s => some (.boolean false, s)
  | s => (afterNumber? s).map fun rest => (.number (s.take (s.length - rest.length)), rest)

theorem value?_brace (depth : Nat) (s : Text) : value? (depth + 1) ('{' :: s) =
    (enclosed? (member? (value? depth)) '}' s).map fun (ms, s) => (.object ms, s) := rfl

/-- How deep arrays and objects may be nested. -/
def maxDepth : Nat := 128

/-- The value of a text, if there is nothing but blanks around it. -/
def parse? (text : Text) : Option Json := do
  let (v, rest) ← value? maxDepth (skip text)
  if skip rest = [] then return v else none

example : parse? " \x7b\"a\\/\\u00E9\" :\t[-1.5e+3,\r\n\"\\ud83D\\ude00\", \x7b\x7d]\n\x7d ".toList =
    some (.object [("a/é".toList,
      .array [.number "-1.5e+3".toList, .string "😀".toList, .object []])]) := by cbv

example : parse? "\"\\ud83d\"".toList = none := by cbv

example : parse? "01".toList = none := by cbv

end Json

end Rulebook
