import Rulebook.Text.Basic

/-!
# Blanks

A blank is a character with the Unicode property `White_Space`. `trim` takes the blanks
off both ends of a text. What `trimStart` leaves starts with no blank
(`isBlank_head_trimStart`), and a text that starts with none is left as it is
(`trimStart_eq_self_iff`).
-/

namespace Rulebook.Text

/-- The code points with the property `White_Space`, as closed ranges in order. -/
def blankRanges : List (Nat × Nat) :=
  [(0x09, 0x0D), (0x20, 0x20), (0x85, 0x85), (0xA0, 0xA0), (0x1680, 0x1680), (0x2000, 0x200A),
   (0x2028, 0x2029), (0x202F, 0x202F), (0x205F, 0x205F), (0x3000, 0x3000)]

/-- Whether a code point is in one of the closed ranges. -/
def inRanges (ranges : List (Nat × Nat)) (n : Nat) : Bool :=
  ranges.any fun (first, last) => first ≤ n && n ≤ last

/-- Whether the character is white space. -/
def isBlank (c : Char) : Bool := inRanges blankRanges c.toNat

/-- The text without the blanks it starts with. -/
def trimStart (s : Text) : Text := s.dropWhile isBlank

/-- The text without the blanks it ends with. -/
def trimEnd (s : Text) : Text := (s.reverse.dropWhile isBlank).reverse

/-- The text without the blanks at its two ends. -/
def trim (s : Text) : Text := trimEnd (trimStart s)

/-! ## What trimming leaves -/

theorem trimStart_eq_self_iff {s : Text} :
    trimStart s = s ↔ ∀ c ∈ s.head?, isBlank c = false := by
  cases s with
  | nil => simp [trimStart]
  | cons c s =>
    by_cases h : isBlank c
    · have hlen : (s.dropWhile isBlank).length ≤ s.length :=
        (List.dropWhile_sublist isBlank).length_le
      constructor
      · intro heq
        simp only [trimStart, List.dropWhile_cons, h, if_true] at heq
        rw [heq, List.length_cons] at hlen
        omega
      · simp [h]
    · simp [trimStart, h]

/-- What is left after the blanks in front are taken off starts with no blank. -/
theorem isBlank_head_trimStart (s : Text) : ∀ c ∈ (trimStart s).head?, isBlank c = false := by
  intro c hc
  unfold trimStart at hc
  have := List.head?_dropWhile_not isBlank s
  cases h : (s.dropWhile isBlank).head? with
  | none => simp [h] at hc
  | some d =>
    simp only [h, Option.mem_def, Option.some.injEq] at hc this
    subst hc
    simpa using this

theorem trimStart_trimStart (s : Text) : trimStart (trimStart s) = trimStart s :=
  trimStart_eq_self_iff.2 (isBlank_head_trimStart s)

theorem trimEnd_trimEnd (s : Text) : trimEnd (trimEnd s) = trimEnd s := by
  have := trimStart_trimStart s.reverse
  unfold trimStart at this
  simp [trimEnd, this]

end Rulebook.Text
