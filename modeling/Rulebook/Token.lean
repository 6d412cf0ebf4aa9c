import Rulebook.Text.Blank

/-!
# Tokens

A definition is written in tokens of five kinds : a run of blanks, the name of a rule in
angle brackets, a text in double or in single quotes, and the bar. `next?` reads the token
at the front of a text, as long as possible. `scan` reads tokens until none starts any
more and gives back the rest; together they make up the text (`scan_append`). `tokenize`
accepts a text that is read to its end and places its tokens by byte offsets.
-/

namespace Rulebook

open Text

namespace Token

/-- The five shapes a token can have. -/
inductive Kind where
  | whitespace
  | nonterminal
  | doubleQuoted
  | singleQuoted
  | alternation
  deriving DecidableEq, Repr

namespace Kind

/-- Whether the kind is that of blanks. -/
def isWhitespace : Kind → Bool
  | whitespace => true
  | _ => false

/-- Whether the kind is one of the two quoted ones. -/
def isTerminal : Kind → Bool
  | doubleQuoted | singleQuoted => true
  | _ => false

/-- Whether the kind is that of references. -/
def isNonterminal : Kind → Bool
  | nonterminal => true
  | _ => false

/-- Whether the kind is that of bars. -/
def isAlternation : Kind → Bool
  | alternation => true
  | _ => false

/-- The text between the delimiters of a slice of this kind : what is left of it without its
first and last byte, if both of those are whole characters. Blanks and bars have none. -/
def inner? (kind : Kind) (slice : Text) : Option Text :=
  match kind with
  | nonterminal | doubleQuoted | singleQuoted => slice? slice 1 (byteSize slice - 1)
  | whitespace | alternation => none

end Kind

end Token

/-- A token : its kind and the text it covers, delimiters included. -/
structure Token where
  kind : Token.Kind
  text : Text
  deriving DecidableEq, Repr

namespace Token

/-! ## Reading one token -/

/-- A token from `opening` to the next `closing`, whose opening has already been read. -/
def delimited? (kind : Kind) (opening closing : Char) (s : Text) : Option (Token × Text) :=
  (cutAt? closing s).map fun (body, rest) => (⟨kind, opening :: body ++ [closing]⟩, rest)

/-- The longest token at the front of the text, and the rest. A name in angle brackets has at
least one character; what is in quotes may be empty. -/
def next? : Text → Option (Token × Text)
  | [] => none
  | '|' :: s => some (⟨.alternation, ['|']⟩, s)
  | '"' :: s => delimited? .doubleQuoted '"' '"' s
  | '\'' :: s => delimited? .singleQuoted '\'' '\'' s
  | '<' :: '>' :: _ => none
  | '<' :: s => delimited? .nonterminal '<' '>' s
  | c :: s =>
    if isBlank c then some (⟨.whitespace, c :: s.takeWhile isBlank⟩, s.dropWhile isBlank)
    else none

theorem append_of_delimited? {kind : Kind} {opening closing : Char} {s rest : Text} {t : Token}
    (h : delimited? kind opening closing s = some (t, rest)) :
    opening :: s = t.text ++ rest ∧ t.text ≠ [] := by
  obtain ⟨⟨body, after⟩, hcut, heq⟩ := Option.map_eq_some_iff.1 h
  obtain ⟨rfl, -⟩ := cutAt?_eq_some_iff.1 hcut
  simp only [Prod.mk.injEq] at heq
  obtain ⟨rfl, rfl⟩ := heq
  simp

/-- A token that is read is the front of the text and is not empty. -/
theorem append_of_next? {s rest : Text} {t : Token} (h : next? s = some (t, rest)) :
    s = t.text ++ rest ∧ t.text ≠ [] := by
  unfold next? at h
  split at h
  · simp at h
  · simp only [Option.some.injEq, Prod.mk.injEq] at h
    obtain ⟨rfl, rfl⟩ := h
    simp
  · exact append_of_delimited? h
  · exact append_of_delimited? h
  · simp at h
  · exact append_of_delimited? h
  · split at h
    · simp only [Option.some.injEq, Prod.mk.injEq] at h
      obtain ⟨rfl, rfl⟩ := h
      simp
    · simp at h

theorem length_lt_of_next? {s rest : Text} {t : Token} (h : next? s = some (t, rest)) :
    rest.length < s.length := by
  obtain ⟨rfl, hne⟩ := append_of_next? h
  have := List.length_pos_iff.2 hne
  simp only [List.length_append]
  omega

/-! ## Reading all of a text -/

/-- The tokens at the front of a text, and what is left where no further token starts. -/
def scan (s : Text) : List Token × Text :=
  match _h : next? s with
  | none => ([], s)
  | some (token, rest) =>
    let (tokens, unread) := scan rest
    (token :: tokens, unread)
termination_by s.length
decreasing_by exact length_lt_of_next? _h

/-- The text that a list of tokens covers. -/
def join (tokens : List Token) : Text := tokens.flatMap Token.text

/-- A scan stops where no token starts. -/
theorem scan_of_next?_none {s : Text} (h : next? s = none) : scan s = ([], s) := by
  rw [scan]
  split
  · rfl
  · simp_all

/-- A scan takes the first token and goes on behind it. -/
theorem scan_of_next?_some {s rest : Text} {t : Token} (h : next? s = some (t, rest)) :
    scan s = (t :: (scan rest).1, (scan rest).2) := by
  rw [scan]
  split
  · simp_all
  · next heq =>
    rw [h] at heq
    simp only [Option.some.injEq, Prod.mk.injEq] at heq
    obtain ⟨rfl, rfl⟩ := heq
    rfl

/-- The tokens and the unread rest make up the text. -/
theorem scan_append (s : Text) : join (scan s).1 ++ (scan s).2 = s := by
  fun_induction scan s with
  | case1 => simp [join]
  | case2 s t rest h tokens unread heq ih =>
    rw [heq] at ih
    obtain ⟨hs, -⟩ := append_of_next? h
    simp only [join, List.flatMap_cons, List.append_assoc] at ih ⊢
    rw [ih, hs]

/-- A token with the byte offsets it starts and stops at. -/
structure Placed where
  kind : Kind
  start : Nat
  stop : Nat
  deriving DecidableEq, Repr

/-- The tokens placed one after another from the byte offset `start`. -/
def place (start : Nat) : List Token → List Placed
  | [] => []
  | t :: tokens =>
    let stop := start + byteSize t.text
    ⟨t.kind, start, stop⟩ :: place stop tokens

/-- Where reading stopped : the number of characters before, and the text from there on. -/
structure Unread where
  position : Nat
  remainder : Text
  deriving DecidableEq, Repr

/-- The tokens of a text with their offsets, or the first place where no token starts. -/
def tokenize (s : Text) : Except Unread (List Placed) :=
  match scan s with
  | (tokens, []) => .ok (place 0 tokens)
  | (tokens, unread) => .error ⟨(join tokens).length, unread⟩

example : tokenize "<a> 'é".toList = .error ⟨4, "'é".toList⟩ := by cbv

end Token

end Rulebook
