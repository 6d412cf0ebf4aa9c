/-!
# Text

A text is a list of characters. A place in it can also be given by the number of bytes
before it in UTF-8 : `slice?` cuts at two such offsets and refuses one inside a
character. `cutAt?` cuts at the first occurrence of a character and `splitAt` at every
one, so that joining the pieces with that character gives the text back
(`joinWith_splitAt`). What is cut in pieces may be a list of anything, as a path of bytes is.
-/

namespace Rulebook

/-- A text, character by character. -/
abbrev Text := List Char

namespace Text

instance lawfulBEq : LawfulBEq Text := inferInstance

/-- The number of bytes of the UTF-8 form. -/
def byteSize : Text → Nat
  | [] => 0
  | c :: s => c.utf8Size + byteSize s

@[simp] theorem byteSize_append (s t : Text) : byteSize (s ++ t) = byteSize s + byteSize t := by
  induction s with
  | nil => simp [byteSize]
  | cons c s ih => simp [byteSize, ih, Nat.add_assoc]

/-- How many bytes a text can have. -/
def maxSize : Nat := 0x7FFFFFFFFFFFFFFF

/-- The text cut in two after `n` bytes, if that is not inside a character or past the end. -/
def cutBytes? : Nat → Text → Option (Text × Text)
  | 0, s => some ([], s)
  | _ + 1, [] => none
  | n + 1, c :: s =>
    if c.utf8Size ≤ n + 1 then
      (cutBytes? (n + 1 - c.utf8Size) s).map fun (before, after) => (c :: before, after)
    else none

/-- A cut takes a text apart at a number of bytes. -/
theorem append_of_cutBytes? {n : Nat} {s before after : Text}
    (h : cutBytes? n s = some (before, after)) : s = before ++ after ∧ byteSize before = n := by
  fun_induction cutBytes? n s generalizing before after with
  | case1 s => simp_all [byteSize]
  | case2 => simp at h
  | case3 n c s hle ih =>
    obtain ⟨⟨b, a⟩, hba, heq⟩ := Option.map_eq_some_iff.1 h
    simp only [Prod.mk.injEq] at heq
    obtain ⟨rfl, rfl⟩ := heq
    obtain ⟨hs, hn⟩ := ih hba
    exact ⟨by simp [hs], by simp only [byteSize, hn]; omega⟩
  | case4 => simp at h

/-- The bytes from `start` up to `stop`, if both are offsets between characters in that order. -/
def slice? (s : Text) (start stop : Nat) : Option Text := do
  let (_, after) ← cutBytes? start s
  if start ≤ stop then
    let (middle, _) ← cutBytes? (stop - start) after
    return middle
  else none

/-- What follows `start` in the text, if the text begins with it. -/
def after? : Text → Text → Option Text
  | [], s => some s
  | _ :: _, [] => none
  | p :: ps, c :: s => if p = c then after? ps s else none

theorem after?_eq_some_iff {p s rest : Text} : after? p s = some rest ↔ s = p ++ rest := by
  induction p generalizing s with
  | nil => simp [after?, eq_comm]
  | cons a p ih =>
    cases s with
    | nil => simp [after?]
    | cons c s =>
      by_cases h : a = c
      · simp [after?, h, ih]
      · simp [after?, h, Ne.symm h]

/-- The text up to the first `mark`, and what comes after that mark. -/
def cutAt? (mark : Char) : Text → Option (Text × Text)
  | [] => none
  | c :: s =>
    if c = mark then some ([], s)
    else (cutAt? mark s).map fun (before, after) => (c :: before, after)

/-- A text is cut at the first place of the mark. -/
theorem cutAt?_eq_some_iff {mark : Char} {s before after : Text} :
    cutAt? mark s = some (before, after) ↔ s = before ++ mark :: after ∧ mark ∉ before := by
  induction s generalizing before with
  | nil => simp [cutAt?]
  | cons c s ih =>
    by_cases h : c = mark
    · subst h
      cases before with
      | nil => simp [cutAt?, eq_comm]
      | cons b before => simp +contextual [cutAt?]
    · cases before with
      | nil => simp [cutAt?, h]
      | cons b before =>
        simp only [cutAt?, h, if_false, Option.map_eq_some_iff, Prod.exists, Prod.mk.injEq,
          List.cons.injEq]
        constructor
        · rintro ⟨x, y, hxy, ⟨rfl, rfl⟩, rfl⟩
          obtain ⟨rfl, hm⟩ := ih.1 hxy
          exact ⟨rfl, by simp [Ne.symm h, hm]⟩
        · rintro ⟨heq, hm⟩
          simp only [List.cons_append, List.cons.injEq] at heq
          obtain ⟨rfl, rfl⟩ := heq
          simp only [List.mem_cons, not_or] at hm
          exact ⟨before, after, ih.2 ⟨rfl, hm.2⟩, ⟨rfl, rfl⟩, rfl⟩

theorem cutAt?_eq_none_iff {mark : Char} {s : Text} : cutAt? mark s = none ↔ mark ∉ s := by
  induction s with
  | nil => simp [cutAt?]
  | cons c s ih =>
    by_cases h : c = mark
    · simp [cutAt?, h]
    · simp [cutAt?, h, Ne.symm h, ih]

/-! ## Pieces between marks -/

section Pieces

variable {α : Type} [DecidableEq α]

/-- The pieces between the occurrences of `mark` : one more than there are marks. -/
def splitAt (mark : α) : List α → List (List α)
  | [] => [[]]
  | c :: s =>
    if c = mark then [] :: splitAt mark s
    else match splitAt mark s with
      | [] => [[c]]
      | piece :: pieces => (c :: piece) :: pieces

/-- The pieces one after another with `mark` between them. -/
def joinWith (mark : List α) : List (List α) → List α
  | [] => []
  | [piece] => piece
  | piece :: pieces => piece ++ mark ++ joinWith mark pieces

theorem splitAt_ne_nil (mark : α) (s : List α) : splitAt mark s ≠ [] := by
  cases s with
  | nil => simp [splitAt]
  | cons c s =>
    unfold splitAt
    split
    · simp
    · split <;> simp

/-- The pieces, with the mark between them, make up the text. -/
theorem joinWith_splitAt (mark : α) (s : List α) : joinWith [mark] (splitAt mark s) = s := by
  induction s with
  | nil => rfl
  | cons c s ih =>
    unfold splitAt
    split
    · next h =>
      subst h
      cases hp : splitAt c s with
      | nil => exact absurd hp (splitAt_ne_nil c s)
      | cons piece pieces => simpa [joinWith, hp] using ih
    · split
      · next hp => exact absurd hp (splitAt_ne_nil mark s)
      · next piece pieces hp =>
        rw [hp] at ih
        cases pieces <;> simp_all [joinWith]

end Pieces

end Text

end Rulebook
