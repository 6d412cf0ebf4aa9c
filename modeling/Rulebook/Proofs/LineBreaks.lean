import Rulebook.Proofs.Content
import Rulebook.Reader

/-!
# Breaks made alike

A text with a line feed in place of every break, whatever it was, is `Text.normalized`. It has the
same lines (`Text.lines_normalized`), and so a grammar, or an error with the number of its line, is
the same (`Grammar.ofText_of_lines`). Where all breaks are line feeds the lines are the pieces
between them, but for an empty piece at the end (`Text.lines_append_feed`, `Text.lines_of_open`),
which tells what the lines are joined and how many there are (`lines_of_normalized`).
-/

namespace Rulebook

namespace Text

/-! ## One kind of break -/

/-- The text with one line feed for a carriage return and a line feed. -/
def pairsJoined : Text → Text
  | '\r' :: '\n' :: s => '\n' :: pairsJoined s
  | c :: s => c :: pairsJoined s
  | [] => []

/-- The text with a line feed for every break, also for a carriage return alone. -/
def normalized (s : Text) : Text := (pairsJoined s).map fun c => if c = '\r' then '\n' else c

/-- No carriage return is left. -/
theorem return_not_mem_normalized (s : Text) : '\r' ∉ normalized s := by
  intro h
  obtain ⟨c, -, hc⟩ := List.mem_map.1 h
  split at hc
  · cases hc
  · next hne => exact hne hc

theorem normalized_pair (s : Text) : normalized ('\r' :: '\n' :: s) = '\n' :: normalized s := rfl

theorem normalized_return {s : Text} (h : ∀ t, s ≠ '\n' :: t) :
    normalized ('\r' :: s) = '\n' :: normalized s := by
  rw [normalized, pairsJoined.eq_2 _ _ fun t _ ht => h t ht, List.map_cons, if_pos rfl,
    ← normalized]

theorem normalized_cons {c : Char} (h : c ≠ '\r') (s : Text) :
    normalized (c :: s) = c :: normalized s := by
  rw [normalized, pairsJoined.eq_2 _ _ fun _ hc _ => h hc, List.map_cons, if_neg h, ← normalized]

/-- The kind of a break makes no difference to the lines. -/
theorem lines_normalized (s : Text) : lines (normalized s) = lines s := by
  fun_induction lines s with
  | case1 => rfl
  | case2 s ih => rw [normalized_pair, lines, ih]
  | case3 s hnext ih => rw [normalized_return fun t ht => hnext t ht, lines, ih]
  | case4 s ih => rw [normalized_cons (by decide), lines, ih]
  | case5 c s _ hr hn ih => rw [normalized_cons hr, lines_cons hr hn, ih]

/-! ## Lines and the pieces between line feeds -/

theorem splitAt_cons {mark c : Char} (h : c ≠ mark) (s : Text) :
    splitAt mark (c :: s) = extendFirst c (splitAt mark s) := by
  rw [splitAt, if_neg h]
  cases splitAt mark s <;> rfl

/-- There is one piece more than there are marks. -/
theorem length_splitAt (mark : Char) (s : Text) :
    (splitAt mark s).length = s.count mark + 1 := by
  induction s with
  | nil => rfl
  | cons c s ih =>
    by_cases hc : c = mark
    · subst hc
      rw [splitAt, if_pos rfl, List.length_cons, ih, List.count_cons_self]
    · rw [splitAt_cons hc, List.count_cons_of_ne hc, ← ih]
      cases hs : splitAt mark s with
      | nil => exact absurd hs (splitAt_ne_nil mark s)
      | cons piece pieces => rfl

/-- What stands in front does not change whether lines and pieces are the same. -/
theorem lines_append_eq_splitAt {s t u : Text} (hs : '\r' ∉ s) (h : lines t = splitAt '\n' u) :
    lines (s ++ t) = splitAt '\n' (s ++ u) := by
  induction s with
  | nil => exact h
  | cons c s ih =>
    obtain ⟨hc, hrest⟩ := not_or.1 (mt List.mem_cons.2 hs)
    by_cases hn : c = '\n'
    · subst hn
      rw [List.cons_append, List.cons_append, lines, ih hrest, splitAt, if_pos rfl]
    · rw [List.cons_append, List.cons_append, lines_cons (Ne.symm hc) hn, ih hrest,
        splitAt_cons hn]

/-- With a line feed behind it, every piece of a text is a line. -/
theorem lines_append_feed {s : Text} (h : '\r' ∉ s) : lines (s ++ ['\n']) = splitAt '\n' s := by
  have hfeed : lines ['\n'] = splitAt '\n' [] := rfl
  rw [lines_append_eq_splitAt h hfeed, List.append_nil]

/-- A text whose last character is no line feed has its pieces as lines. -/
theorem lines_of_open {s : Text} {last : Char} (h : '\r' ∉ s ++ [last]) (hlast : last ≠ '\n') :
    lines (s ++ [last]) = splitAt '\n' (s ++ [last]) := by
  have hr : last ≠ '\r' := fun heq => h (by simp [heq])
  refine lines_append_eq_splitAt (fun hs => h (List.mem_append_left _ hs)) ?_
  rw [lines_cons hr hlast, splitAt_cons hlast]
  rfl

/-- Joined by line feeds, lines are the text again but for the line feed at its end. -/
theorem joinWith_lines {s : Text} (h : '\r' ∉ s) :
    joinWith ['\n'] (lines s) = if s.getLast? = some '\n' then s.dropLast else s := by
  rcases List.eq_nil_or_concat' s with rfl | ⟨s, last, rfl⟩
  · rfl
  · rw [List.getLast?_concat, List.dropLast_concat]
    by_cases hlast : last = '\n'
    · subst hlast
      have hs : '\r' ∉ s := fun hmem => h (List.mem_append_left _ hmem)
      rw [if_pos rfl, lines_append_feed hs, joinWith_splitAt]
    · rw [if_neg fun heq => hlast (Option.some.inj heq), lines_of_open h hlast, joinWith_splitAt]

/-- There is a line for every line feed, and one for what comes behind the last of them. -/
theorem length_lines {s : Text} (h : '\r' ∉ s) :
    (lines s).length = s.count '\n' + if s = [] ∨ s.getLast? = some '\n' then 0 else 1 := by
  rcases List.eq_nil_or_concat' s with rfl | ⟨s, last, rfl⟩
  · rfl
  · rw [List.getLast?_concat]
    by_cases hlast : last = '\n'
    · subst hlast
      have hs : '\r' ∉ s := fun hmem => h (List.mem_append_left _ hmem)
      rw [if_pos (.inr rfl), lines_append_feed hs, length_splitAt]
      simp
    · rw [if_neg (by simp [hlast]), lines_of_open h hlast, length_splitAt]

end Text

open Text

/-- A grammar is read line by line. -/
theorem Grammar.ofText_of_lines {s t : Text} (h : lines s = lines t) :
    Grammar.ofText s = Grammar.ofText t := by
  rw [Grammar.ofText, Grammar.ofText, Reader.addText, Reader.addText, h]

/-- With line feeds for all breaks a text has the same lines. None of them holds a character that
breaks lines, joined by line feeds they are the text but for one line feed at its end, and there
are as many as line feeds, and one more if the text goes on behind the last of them. The grammar
is the same too, or the error and the number of its line. -/
theorem lines_of_normalized (text : Text) :
    lines text = lines (normalized text) ∧ (∀ line ∈ lines text, '\r' ∉ line ∧ '\n' ∉ line) ∧
    joinWith ['\n'] (lines text) =
      (if (normalized text).getLast? = some '\n' then (normalized text).dropLast
        else normalized text) ∧
    (lines text).length = (normalized text).count '\n' +
      (if normalized text = [] ∨ (normalized text).getLast? = some '\n' then 0 else 1) ∧
    Grammar.ofText text = Grammar.ofText (normalized text) := by
  have hlines := (lines_normalized text).symm
  refine ⟨hlines, fun line hline => ?_, ?_, ?_, Grammar.ofText_of_lines hlines⟩
  · have hbroken := unbroken_of_mem_lines text line hline
    exact ⟨fun h => (hbroken _ h).1 rfl, fun h => (hbroken _ h).2 rfl⟩
  · rw [hlines, joinWith_lines (return_not_mem_normalized text)]
  · rw [hlines, length_lines (return_not_mem_normalized text)]

/-- A carriage return in front of a pair is a break of its own, and of two breaks at the end one is
left out. -/
theorem lines_of_normalized_mixed :
    let text := "<a> ::=\r\r\n'x'\n\r<a> ::=\r\r\n".toList
    normalized text = "<a> ::=\n\n'x'\n\n<a> ::=\n\n".toList ∧ (lines text).length = 6 ∧
      '\r' ∉ "'x'".toList ∧ '\n' ∉ "'x'".toList ∧
      joinWith ['\n'] (lines text) = "<a> ::=\n\n'x'\n\n<a> ::=\n".toList ∧
      Grammar.ofText (normalized text) =
        .error (.duplicateRule "a".toList (some ⟨none, 5⟩)) ∧
      Grammar.ofText text = Grammar.ofText (normalized text) := by
  intro text
  obtain ⟨-, hline, hjoin, hlength, htext⟩ := lines_of_normalized text
  have hbroken := hline "'x'".toList (by decide)
  exact ⟨by decide, hlength.trans (by decide), hbroken.1, hbroken.2, hjoin.trans (by decide),
    by decide, htext⟩

end Rulebook
