import Rulebook.Proofs.Content
import Rulebook.Proofs.Decomposition

/-!
# Tokens that are no blanks

Blanks keep the other tokens of a definition apart and say nothing themselves. What does say
something, with its kind and text, is `significant`. Where a text is cut between two tokens, or
within a run of blanks, the significant tokens of its parts are those of the whole
(`visible_append`), and blanks at the ends of the parts add none : texts that are accepted give
their significant tokens one after another, however many blanks are put between them
(`significant_flatten`).
-/

namespace Rulebook.Token

open Text

/-! ## Tokens that are read -/

/-- The tokens of a text that are no blanks. -/
def visible (s : Text) : List Token := (scan s).1.filter fun t => !t.kind.isWhitespace

@[simp] theorem visible_nil : visible [] = [] := by simp [visible]

theorem visible_trimStart (s : Text) : visible (trimStart s) = visible s := by
  cases s with
  | nil => rfl
  | cons c s =>
    by_cases h : isBlank c = true
    · rw [visible.eq_1 (c :: s), scan_of_next?_some (next?_of_isBlank h s), trimStart,
        List.dropWhile_cons_of_pos h]
      rfl
    · rw [trimStart, List.dropWhile_cons_of_neg h]

/-- A run of blanks at the front adds no visible token, and any other piece adds itself. -/
theorem visible_append_of_shape {kind : Kind} {piece : Text} (h : Shape kind piece)
    (rest : Text) : visible (piece ++ rest) =
      [⟨kind, piece⟩].filter (fun t => !t.kind.isWhitespace) ++ visible rest := by
  by_cases hkind : kind = .whitespace
  -- The blanks may go on in `rest`, so that the piece need not be a token that is read.
  · subst hkind
    rw [← visible_trimStart (piece ++ rest), trimStart, List.dropWhile_append_of_pos h.2]
    exact visible_trimStart rest
  · have hnext : next? (piece ++ rest) = some (⟨kind, piece⟩, rest) :=
      next?_of_shape h fun hblank => absurd hblank hkind
    rw [visible, scan_of_next?_some hnext, ← List.singleton_append, List.filter_append, visible]

/-- The visible tokens of pieces with a text behind them are those of the pieces and then those of
the text. -/
theorem visible_join_append : ∀ {tokens : List Token}, (∀ t ∈ tokens, Shape t.kind t.text) →
    ∀ rest, visible (join tokens ++ rest) =
      tokens.filter (fun t => !t.kind.isWhitespace) ++ visible rest
  | [], _, _ => rfl
  | t :: tokens, h, rest => by
    obtain ⟨ht, htokens⟩ := List.forall_mem_cons.1 h
    rw [join_cons, List.append_assoc, visible_append_of_shape ht, visible_join_append htokens,
      ← List.append_assoc, ← List.filter_append, List.singleton_append]

/-- Behind a text that is accepted, the visible tokens are those of what comes next. -/
theorem visible_append {s : Text} (h : Accepts s) (rest : Text) :
    visible (s ++ rest) = visible s ++ visible rest := by
  have hscan : scan s = ((scan s).1, []) := Prod.ext rfl (accepts_iff_unread.1 h)
  obtain ⟨hshape, hjoin, -⟩ := scan_eq_iff.1 hscan
  have hrest := visible_join_append hshape rest
  rwa [hjoin] at hrest

/-! ## What is accepted -/

theorem accepts_of_isBlank {blanks : Text} (h : ∀ c ∈ blanks, isBlank c = true) :
    Accepts blanks := by
  by_cases hnil : blanks = []
  · exact accepts_iff.2 ⟨[], hnil, by simp⟩
  · have hblanks : Shape .whitespace blanks := ⟨hnil, h⟩
    exact hblanks.accepts

theorem visible_of_isBlank {blanks : Text} (h : ∀ c ∈ blanks, isBlank c = true) :
    visible blanks = [] := by
  have htrim := visible_trimStart blanks
  rw [trimStart, List.dropWhile_eq_nil_iff.2 h, visible_nil] at htrim
  exact htrim.symm

/-- Two texts that are accepted are accepted together. -/
theorem Accepts.append {s t : Text} (hs : Accepts s) (ht : Accepts t) : Accepts (s ++ t) := by
  obtain ⟨pieces, rfl, hpieces⟩ := accepts_iff.1 hs
  obtain ⟨others, rfl, hothers⟩ := accepts_iff.1 ht
  refine accepts_iff.2 ⟨pieces ++ others, List.flatten_append.symm, fun p hp => ?_⟩
  exact (List.mem_append.1 hp).elim (hpieces p) (hothers p)

/-- Blanks at the ends make no difference to whether a text is accepted, nor to its visible
tokens. -/
theorem accepts_and_visible_of_trim {s : Text} (h : Accepts (trim s)) :
    Accepts s ∧ visible s = visible (trim s) := by
  obtain ⟨front, back, hs, hfront, hback⟩ := exists_eq_append_trim s
  have haccepts := (accepts_of_isBlank hfront).append (h.append (accepts_of_isBlank hback))
  rw [← hs] at haccepts
  refine ⟨haccepts, ?_⟩
  conv_lhs => rw [hs, visible_append (accepts_of_isBlank hfront), visible_append h,
    visible_of_isBlank hfront, visible_of_isBlank hback]
  simp

/-! ## Significant tokens -/

/-- The tokens of a definition that are no blanks : the kind of each and the text in its range. -/
def significant (s : Text) : List (Kind × Option Text) :=
  match tokenize s with
  | .ok placed =>
    (placed.filter fun p => !p.kind.isWhitespace).map fun p => (p.kind, slice? s p.start p.stop)
  | .error _ => []

/-- The ranges of placed tokens hold their texts, also if only some of them are looked at. -/
theorem map_slice?_place (keep : Kind → Bool) : ∀ (before : Text) (tokens : List Token),
    ((place (byteSize before) tokens).filter fun p => keep p.kind).map
        (fun p => (p.kind, slice? (before ++ join tokens) p.start p.stop)) =
      (tokens.filter fun t => keep t.kind).map fun t => (t.kind, some t.text)
  | _, [] => rfl
  | before, t :: tokens => by
    have hslice : slice? (before ++ join (t :: tokens)) (byteSize before)
        (byteSize before + byteSize t.text) = some t.text :=
      slice?_eq_some_iff.2 ⟨before, join tokens, rfl, rfl, rfl⟩
    have ih := map_slice?_place keep (before ++ t.text) tokens
    rw [byteSize_append, List.append_assoc, ← join_cons] at ih
    simp only [place, List.filter_cons]
    by_cases hkeep : keep t.kind = true
    · rw [if_pos hkeep, if_pos hkeep, List.map_cons, List.map_cons, ih, hslice]
    · rw [if_neg hkeep, if_neg hkeep, ih]

/-- The significant tokens of a text that is accepted are those that are visible in its scan. -/
theorem significant_of_accepts {s : Text} (h : Accepts s) :
    significant s = (visible s).map fun t => (t.kind, some t.text) := by
  obtain ⟨placed, hplaced⟩ := h
  obtain ⟨tokens, hscan, rfl⟩ := tokenize_eq_ok_iff.1 hplaced
  have hjoin := (scan_eq_iff.1 hscan).join_eq
  have hmap := map_slice?_place (fun kind => !kind.isWhitespace) [] tokens
  rw [byteSize_nil, List.nil_append, hjoin] at hmap
  rw [significant, hplaced, visible, hscan]
  exact hmap

/-- Texts that are accepted, with blanks around them, are accepted one after another, and their
significant tokens are those of the texts, one after another. -/
theorem significant_flatten : ∀ {parts : List Text}, (∀ s ∈ parts, Accepts (trim s)) →
    Accepts parts.flatten ∧
      significant parts.flatten = (parts.map trim).flatMap significant
  | [], _ => by
    have hnil : Accepts [] := accepts_iff.2 ⟨[], rfl, by simp⟩
    exact ⟨hnil, by simp [significant_of_accepts hnil]⟩
  | s :: parts, h => by
    obtain ⟨htrim, hparts⟩ := List.forall_mem_cons.1 h
    obtain ⟨hs, hvisible⟩ := accepts_and_visible_of_trim htrim
    obtain ⟨hrest, hsignificant⟩ := significant_flatten hparts
    have hall := hs.append hrest
    refine ⟨hall, ?_⟩
    rw [List.flatten_cons, List.map_cons, List.flatMap_cons, ← hsignificant,
      significant_of_accepts hall, significant_of_accepts htrim, significant_of_accepts hrest,
      visible_append hs, hvisible, List.map_append]

end Rulebook.Token
