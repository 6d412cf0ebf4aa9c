import Rulebook.Proofs.Decomposition

/-!
# The text inside a token

The inner text of a slice is what is left without its first and its last byte, and it is there if
and only if both are characters of their own (`Kind.inner?_eq_some_iff`). The token of a kind
that has delimiters starts and ends with them (`Shape.exists_enclosed`), and they are such
characters, so that every such token of a definition has an inner text
(`inner?_between_delimiters`).
-/

namespace Rulebook

namespace Text

/-- A text of one byte is one character. -/
theorem byteSize_eq_one_iff {s : Text} : byteSize s = 1 ↔ ∃ c, s = [c] ∧ c.utf8Size = 1 := by
  refine ⟨fun h => ?_, ?_⟩
  · cases s with
    | nil => simp at h
    | cons c s =>
      have hpos := c.utf8Size_pos
      rw [byteSize_cons] at h
      obtain rfl : s = [] := byteSize_eq_zero_iff.1 (by omega)
      exact ⟨c, rfl, by simpa using h⟩
  · rintro ⟨c, rfl, hc⟩
    simpa using hc

/-- The slice without the first and the last byte is there if and only if both are characters. -/
theorem slice?_inside_eq_some_iff {s piece : Text} :
    slice? s 1 (byteSize s - 1) = some piece ↔
      ∃ first last, first.utf8Size = 1 ∧ last.utf8Size = 1 ∧ s = first :: (piece ++ [last]) := by
  rw [slice?_eq_some_iff]
  constructor
  · rintro ⟨before, after, rfl, hbefore, hstop⟩
    obtain ⟨first, rfl, hfirst⟩ := byteSize_eq_one_iff.1 hbefore
    have hafter : byteSize after = 1 := by
      simp only [byteSize_append] at hstop
      omega
    obtain ⟨last, rfl, hlast⟩ := byteSize_eq_one_iff.1 hafter
    exact ⟨first, last, hfirst, hlast, rfl⟩
  · rintro ⟨first, last, hfirst, hlast, rfl⟩
    refine ⟨[first], [last], rfl, byteSize_eq_one_iff.2 ⟨first, rfl, hfirst⟩, ?_⟩
    simp only [byteSize_cons, byteSize_append, byteSize_nil, hfirst, hlast]
    omega

end Text

open Text

theorem Grammar.tokenize_eq_ok_iff {rule definition : Text} {placed : List Token.Placed} :
    Grammar.tokenize rule definition = .ok placed ↔ Token.tokenize definition = .ok placed := by
  unfold Grammar.tokenize
  cases Token.tokenize definition <;> simp

namespace Token

/-- The delimiters of a kind, for the kinds that have an inner text. -/
def Kind.delimiters? : Kind → Option (Char × Char)
  | nonterminal => some ('<', '>')
  | doubleQuoted => some ('"', '"')
  | singleQuoted => some ('\'', '\'')
  | whitespace | alternation => none

section

variable {kind : Kind} {opening closing : Char}

/-- An inner text is there if the slice starts and ends with characters of one byte. -/
theorem Kind.inner?_eq_some_iff (h : kind.delimiters?.isSome) {slice inner : Text} :
    kind.inner? slice = some inner ↔ ∃ first last, first.utf8Size = 1 ∧ last.utf8Size = 1 ∧
      slice = first :: (inner ++ [last]) := by
  cases kind with
  | nonterminal | doubleQuoted | singleQuoted => exact slice?_inside_eq_some_iff
  | whitespace | alternation => simp [delimiters?] at h

/-- Delimiters take one byte each. -/
theorem Kind.utf8Size_delimiters (h : kind.delimiters? = some (opening, closing)) :
    opening.utf8Size = 1 ∧ closing.utf8Size = 1 := by
  cases kind with
  | nonterminal | doubleQuoted | singleQuoted =>
    simp only [delimiters?, Option.some.injEq, Prod.mk.injEq] at h
    obtain ⟨rfl, rfl⟩ := h
    decide
  | whitespace | alternation => simp [delimiters?] at h

/-- The inner text of a token is what its delimiters enclose. -/
theorem Enclosed.inner?_eq {body slice : Text} (h : Enclosed opening closing body slice)
    (hkind : kind.delimiters? = some (opening, closing)) : kind.inner? slice = some body := by
  obtain ⟨hopening, hclosing⟩ := Kind.utf8Size_delimiters hkind
  exact (Kind.inner?_eq_some_iff (by rw [hkind]; rfl)).2 ⟨opening, closing, hopening, hclosing, h.1⟩

/-- A piece of a kind that has delimiters stands between them, and in angle brackets there is
something. -/
theorem Shape.exists_enclosed {slice : Text} (h : Shape kind slice)
    (hkind : kind.delimiters? = some (opening, closing)) :
    ∃ body, Enclosed opening closing body slice ∧ (kind = .nonterminal → body ≠ []) := by
  cases kind with
  | nonterminal =>
    obtain ⟨rfl, rfl⟩ := Prod.mk.inj (Option.some.inj hkind)
    obtain ⟨name, hname, henclosed⟩ := h
    exact ⟨name, henclosed, fun _ => hname⟩
  | doubleQuoted | singleQuoted =>
    obtain ⟨rfl, rfl⟩ := Prod.mk.inj (Option.some.inj hkind)
    obtain ⟨body, henclosed⟩ := h
    exact ⟨body, henclosed, nofun⟩
  | whitespace | alternation => simp [Kind.delimiters?] at hkind

end

/-- For a kind that has delimiters, a slice has an inner text if and only if that stands between two
characters of one byte, whatever they are. Every token of such a kind in a definition that is
accepted has one : it stands between the delimiters of the kind, does not hold the closing one, and
is not empty in angle brackets. -/
theorem inner?_between_delimiters (rule definition : Text) :
    (∀ kind : Kind, kind.delimiters?.isSome → ∀ slice inner : Text,
      kind.inner? slice = some inner ↔ ∃ first last, first.utf8Size = 1 ∧ last.utf8Size = 1 ∧
        slice = first :: (inner ++ [last])) ∧
    ∀ placed, Grammar.tokenize rule definition = .ok placed → ∀ p ∈ placed,
      ∀ opening closing, p.kind.delimiters? = some (opening, closing) →
        ∃ slice inner, slice? definition p.start p.stop = some slice ∧
          p.kind.inner? slice = some inner ∧ slice = opening :: (inner ++ [closing]) ∧
          closing ∉ inner ∧ (p.kind = .nonterminal → inner ≠ []) := by
  refine ⟨fun kind hkind slice inner => Kind.inner?_eq_some_iff hkind, ?_⟩
  intro placed hplaced p hp opening closing hkind
  obtain ⟨slice, hslice, hshape⟩ :=
    exists_shape_of_tokenize (Grammar.tokenize_eq_ok_iff.1 hplaced) p hp
  obtain ⟨inner, henclosed, hinner⟩ := hshape.exists_enclosed hkind
  exact ⟨slice, inner, hslice, henclosed.inner?_eq hkind, henclosed.1, henclosed.2, hinner⟩

/-- Two characters of one byte need not be delimiters, and no delimiters of two bytes have anything
between them. A reference may hold umlauts, which the offsets count as two bytes each. -/
theorem inner?_between_delimiters_of_umlauts :
    let definition := "\"ü'\" | <ä b>''".toList
    let p : Placed := ⟨.nonterminal, 8, 14⟩
    Kind.doubleQuoted.inner? "(ä)".toList = some "ä".toList ∧
    (∀ inner, Kind.singleQuoted.inner? "äxü".toList ≠ some inner) ∧
    (∃ placed, Grammar.tokenize "r".toList definition = .ok placed ∧ p ∈ placed) ∧
    ∃ slice inner, slice? definition p.start p.stop = some slice ∧
      p.kind.inner? slice = some inner ∧ slice = '<' :: (inner ++ ['>']) ∧ '>' ∉ inner ∧
      inner ≠ [] := by
  intro definition p
  obtain ⟨hinner, hplaced⟩ := inner?_between_delimiters "r".toList definition
  have htokenize : Grammar.tokenize "r".toList definition = .ok [⟨.doubleQuoted, 0, 5⟩,
      ⟨.whitespace, 5, 6⟩, ⟨.alternation, 6, 7⟩, ⟨.whitespace, 7, 8⟩, p,
      ⟨.singleQuoted, 14, 16⟩] := by decide +kernel
  have hp : p ∈ [⟨.doubleQuoted, 0, 5⟩, ⟨.whitespace, 5, 6⟩, ⟨.alternation, 6, 7⟩,
      ⟨.whitespace, 7, 8⟩, p, ⟨.singleQuoted, 14, 16⟩] := by simp
  obtain ⟨slice, inner, hslice, hkind, hdelimited, hclosing, hne⟩ :=
    hplaced _ htokenize p hp '<' '>' rfl
  refine ⟨?_, fun inner h => ?_, ⟨_, htokenize, hp⟩, slice, inner, hslice, hkind, hdelimited,
    hclosing, hne rfl⟩
  · exact (hinner .doubleQuoted rfl _ _).2 ⟨'(', ')', by decide, by decide, rfl⟩
  · obtain ⟨first, last, hfirst, -, heq⟩ := (hinner .singleQuoted rfl _ _).1 h
    obtain rfl : 'ä' = first := (List.cons.inj heq).1
    exact absurd hfirst (by decide)

end Token

end Rulebook
