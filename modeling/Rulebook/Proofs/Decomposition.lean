import Mathlib.Data.List.Chain
import Mathlib.Data.List.TakeWhile
import Rulebook.Grammar
import Rulebook.Proofs.Slices

/-!
# Definitions as sequences of pieces

`Shape` says what the texts of each kind are, without saying how they are read. The
token at the front of a text is the one piece of some shape that stands there, a run of
blanks taken as long as possible (`next?_eq_some_iff`). A text is read to its end if and
only if it is a sequence of pieces (`accepts_iff`), and the tokens read are then the only
such sequence without two runs of blanks in a row (`scan_eq_iff`).
`tokenize_decomposes` says the same of the placed tokens, whose ranges lie one behind the
other from the first byte to the last.
-/

namespace Rulebook.Token

open Text

/-! ## Shapes -/

/-- A text between two delimiters that does not hold the closing one. -/
def Enclosed (opening closing : Char) (body s : Text) : Prop :=
  s = opening :: (body ++ [closing]) ∧ closing ∉ body

/-- The texts of each kind. -/
def Shape : Kind → Text → Prop
  | .whitespace, s => s ≠ [] ∧ ∀ c ∈ s, isBlank c = true
  | .nonterminal, s => ∃ name, name ≠ [] ∧ Enclosed '<' '>' name s
  | .doubleQuoted, s => ∃ body, Enclosed '"' '"' body s
  | .singleQuoted, s => ∃ body, Enclosed '\'' '\'' body s
  | .alternation, s => s = ['|']

theorem Shape.ne_nil {kind : Kind} {s : Text} (h : Shape kind s) : s ≠ [] := by
  cases kind with
  | whitespace => exact h.1
  | nonterminal =>
    obtain ⟨name, -, rfl, -⟩ := h
    simp
  | doubleQuoted | singleQuoted =>
    obtain ⟨body, rfl, -⟩ := h
    simp
  | alternation =>
    rw [Shape] at h
    simp [h]

/-- A piece starts with a blank if and only if it is a run of blanks. -/
theorem Shape.isBlank_head {kind : Kind} {s : Text} (h : Shape kind s) :
    ∀ c ∈ s.head?, isBlank c = kind.isWhitespace := by
  intro c hc
  cases kind with
  | whitespace => exact h.2 c (List.mem_of_mem_head? hc)
  | nonterminal =>
    obtain ⟨name, -, rfl, -⟩ := h
    obtain rfl : '<' = c := by simpa using hc
    decide
  | doubleQuoted =>
    obtain ⟨body, rfl, -⟩ := h
    obtain rfl : '"' = c := by simpa using hc
    decide
  | singleQuoted =>
    obtain ⟨body, rfl, -⟩ := h
    obtain rfl : '\'' = c := by simpa using hc
    decide
  | alternation =>
    obtain rfl : s = ['|'] := h
    obtain rfl : '|' = c := by simpa using hc
    decide

/-! ## The token at the front -/

/-- A token with delimiters is read if there is a closing one, and ends at the first. -/
theorem delimited?_eq_some_iff {kind : Kind} {opening closing : Char} {s rest : Text}
    {t : Token} : delimited? kind opening closing s = some (t, rest) ↔
      t.kind = kind ∧ ∃ body, Enclosed opening closing body t.text ∧
        opening :: s = t.text ++ rest := by
  simp only [delimited?, Option.map_eq_some_iff, Prod.exists, cutAt?_eq_some_iff]
  refine ⟨?_, ?_⟩
  · rintro ⟨body, after, ⟨rfl, hbody⟩, heq⟩
    simp only [Prod.mk.injEq] at heq
    obtain ⟨rfl, rfl⟩ := heq
    exact ⟨rfl, body, ⟨rfl, hbody⟩, by simp⟩
  · rintro ⟨rfl, body, ⟨htext, hbody⟩, hs⟩
    rw [htext] at hs
    exact ⟨body, rest, ⟨by simpa using hs, hbody⟩, by cases t; simp_all⟩

theorem next?_of_isBlank {c : Char} (h : isBlank c = true) (s : Text) :
    next? (c :: s) = some (⟨.whitespace, c :: s.takeWhile isBlank⟩, s.dropWhile isBlank) := by
  have hne : ∀ d, isBlank d = false → c ≠ d := by
    rintro d hd rfl
    rw [hd] at h
    exact absurd h (by simp)
  have hangle := hne '<' (by decide)
  rw [next?.eq_7 _ _ (hne '|' (by decide)) (hne '"' (by decide)) (hne '\'' (by decide))
    (fun _ hc _ => hangle hc) hangle, if_pos h]

theorem next?_of_ne {c : Char} (h : c ≠ '>') (s : Text) :
    next? ('<' :: c :: s) = delimited? .nonterminal '<' '>' (c :: s) :=
  next?.eq_6 _ fun _ hs => h (List.cons.inj hs).1

/-- The longest run of blanks at the front of a text. -/
theorem takeWhile_dropWhile_append {p : Char → Bool} {run rest : Text}
    (hrun : ∀ c ∈ run, p c = true) (hrest : ∀ c ∈ rest.head?, p c = false) :
    (run ++ rest).takeWhile p = run ∧ (run ++ rest).dropWhile p = rest := by
  rw [List.takeWhile_append_of_pos hrun, List.dropWhile_append_of_pos hrun]
  cases rest with
  | nil => simp
  | cons c rest => simp [hrest c rfl]

/-- A token has the shape of its kind, and blanks are not cut short. -/
theorem shape_of_next? {s rest : Text} {t : Token} (h : next? s = some (t, rest)) :
    Shape t.kind t.text ∧ (t.kind = .whitespace → ∀ c ∈ rest.head?, isBlank c = false) := by
  unfold next? at h
  split at h
  · simp at h
  · simp only [Option.some.injEq, Prod.mk.injEq] at h
    obtain ⟨rfl, rfl⟩ := h
    exact ⟨rfl, by simp⟩
  · obtain ⟨hkind, body, hbody, -⟩ := delimited?_eq_some_iff.1 h
    rw [hkind]
    exact ⟨⟨body, hbody⟩, by simp⟩
  · obtain ⟨hkind, body, hbody, -⟩ := delimited?_eq_some_iff.1 h
    rw [hkind]
    exact ⟨⟨body, hbody⟩, by simp⟩
  · simp at h
  · next s hclosing =>
    obtain ⟨hkind, body, hbody, hs⟩ := delimited?_eq_some_iff.1 h
    rw [hkind]
    refine ⟨⟨body, ?_, hbody⟩, by simp⟩
    rintro rfl
    rw [hbody.1] at hs
    exact hclosing rest (by simpa using hs)
  · split at h
    · next c s _ _ _ _ _ hblank =>
      simp only [Option.some.injEq, Prod.mk.injEq] at h
      obtain ⟨rfl, rfl⟩ := h
      refine ⟨⟨by simp, ?_⟩, fun _ => isBlank_head_trimStart s⟩
      intro d hd
      rcases List.mem_cons.1 hd with rfl | hd
      · exact hblank
      · exact List.mem_takeWhile_imp hd
    · simp at h

/-- A piece at the front of a text is its first token, unless it is cut short. -/
theorem next?_of_shape {kind : Kind} {piece rest : Text} (hshape : Shape kind piece)
    (hrest : kind = .whitespace → ∀ c ∈ rest.head?, isBlank c = false) :
    next? (piece ++ rest) = some (⟨kind, piece⟩, rest) := by
  cases kind with
  | whitespace =>
    obtain ⟨hne, hblank⟩ := hshape
    obtain ⟨c, run, rfl⟩ := List.exists_cons_of_ne_nil hne
    have hrun : ∀ d ∈ run, isBlank d = true := fun d hd => hblank d (by simp [hd])
    obtain ⟨htake, hdrop⟩ := takeWhile_dropWhile_append hrun (hrest rfl)
    rw [List.cons_append, next?_of_isBlank (hblank c (by simp)), htake, hdrop]
  | nonterminal =>
    obtain ⟨name, hne, rfl, hname⟩ := hshape
    obtain ⟨c, name, rfl⟩ := List.exists_cons_of_ne_nil hne
    have hc : c ≠ '>' := by rintro rfl; simp at hname
    simp only [List.cons_append]
    rw [next?_of_ne hc, delimited?_eq_some_iff]
    exact ⟨rfl, c :: name, ⟨by simp, hname⟩, by simp⟩
  | doubleQuoted | singleQuoted =>
    obtain ⟨body, hbody⟩ := hshape
    rw [hbody.1, List.cons_append]
    exact delimited?_eq_some_iff.2 ⟨rfl, body, ⟨rfl, hbody.2⟩, by simp⟩
  | alternation =>
    obtain rfl : piece = ['|'] := hshape
    rfl

/-- The token at the front of a text is the piece that stands there, and a run of blanks
is read as far as it goes. -/
theorem next?_eq_some_iff {s rest : Text} {t : Token} :
    next? s = some (t, rest) ↔ Shape t.kind t.text ∧ s = t.text ++ rest ∧
      (t.kind = .whitespace → ∀ c ∈ rest.head?, isBlank c = false) := by
  refine ⟨fun h => ?_, ?_⟩
  · obtain ⟨hshape, hrest⟩ := shape_of_next? h
    exact ⟨hshape, (append_of_next? h).1, hrest⟩
  · rintro ⟨hshape, rfl, hrest⟩
    exact next?_of_shape hshape hrest

/-! ## All tokens of a text -/

@[simp] theorem scan_nil : scan [] = ([], []) := scan_of_next?_none rfl

@[simp] theorem join_nil : join [] = [] := rfl

@[simp] theorem join_cons (t : Token) (tokens : List Token) :
    join (t :: tokens) = t.text ++ join tokens := rfl

/-- Two kinds that may follow each other where a run of blanks is read as far as it goes. -/
def Separate (a b : Kind) : Prop := ¬(a = .whitespace ∧ b = .whitespace)

/-- Pieces that make up the text, with no two runs of blanks in a row. -/
structure Splits (s : Text) (tokens : List Token) : Prop where
  shape : ∀ t ∈ tokens, Shape t.kind t.text
  join_eq : join tokens = s
  separate : (tokens.map Token.kind).IsChain Separate

/-- A run of blanks is left to be read if and only if the text after the token starts with a
blank. -/
theorem head_join_iff {t : Token} {tokens : List Token}
    (hshape : ∀ u ∈ tokens, Shape u.kind u.text) :
    (t.kind = .whitespace → ∀ c ∈ (join tokens).head?, isBlank c = false) ↔
      ∀ k ∈ (tokens.map Token.kind).head?, Separate t.kind k := by
  cases tokens with
  | nil => simp
  | cons u tokens =>
    have hu := hshape u (by simp)
    obtain ⟨c, text, htext⟩ := List.exists_cons_of_ne_nil hu.ne_nil
    have hblank : isBlank c = u.kind.isWhitespace := hu.isBlank_head c (by simp [htext])
    have hkind : u.kind.isWhitespace = false ↔ u.kind ≠ .whitespace := by
      cases u.kind <;> simp [Kind.isWhitespace]
    simp [htext, hblank, hkind, Separate]

/-- The tokens read are the only pieces that make up the text without two runs of blanks
in a row. -/
theorem scan_eq_iff {s : Text} {tokens : List Token} :
    scan s = (tokens, []) ↔ Splits s tokens := by
  induction tokens generalizing s with
  | nil =>
    refine ⟨fun h => ?_, ?_⟩
    · have hs := scan_append s
      rw [h] at hs
      exact ⟨by simp, hs, List.isChain_nil⟩
    · rintro ⟨-, rfl, -⟩
      exact scan_nil
  | cons t tokens ih =>
    refine ⟨fun h => ?_, ?_⟩
    · cases hnext : next? s with
      | none => simp [scan_of_next?_none hnext] at h
      | some read =>
        obtain ⟨u, rest⟩ := read
        rw [scan_of_next?_some hnext] at h
        simp only [Prod.mk.injEq, List.cons.injEq] at h
        obtain ⟨⟨rfl, htokens⟩, hrest⟩ := h
        obtain ⟨hshape, hjoin, hchain⟩ := ih.1 (Prod.ext htokens hrest)
        obtain ⟨hu, hs, hblank⟩ := next?_eq_some_iff.1 hnext
        rw [← hjoin, head_join_iff hshape] at hblank
        refine ⟨List.forall_mem_cons.2 ⟨hu, hshape⟩, ?_, List.isChain_cons.2 ⟨hblank, hchain⟩⟩
        rw [join_cons, hjoin, hs]
    · rintro ⟨hshape, rfl, hchain⟩
      obtain ⟨hblank, hchain⟩ := List.isChain_cons.1 hchain
      obtain ⟨ht, hshape⟩ := List.forall_mem_cons.1 hshape
      have hnext : next? (join (t :: tokens)) = some (t, join tokens) :=
        next?_of_shape ht ((head_join_iff hshape).2 hblank)
      rw [scan_of_next?_some hnext, ih.2 ⟨hshape, rfl, hchain⟩]

/-! ## What is accepted -/

/-- The tokenizer reads the text to its end. -/
def Accepts (s : Text) : Prop := ∃ placed, tokenize s = .ok placed

theorem tokenize_eq_ok_iff {s : Text} {placed : List Placed} :
    tokenize s = .ok placed ↔ ∃ tokens, scan s = (tokens, []) ∧ place 0 tokens = placed := by
  unfold tokenize
  rcases scan s with ⟨tokens, _ | ⟨c, unread⟩⟩ <;> simp

theorem accepts_iff_unread {s : Text} : Accepts s ↔ (scan s).2 = [] := by
  simp only [Accepts, tokenize_eq_ok_iff]
  refine ⟨?_, ?_⟩
  · rintro ⟨_, tokens, h, -⟩
    rw [h]
  · intro h
    exact ⟨_, (scan s).1, Prod.ext rfl h, rfl⟩

instance (s : Text) : Decidable (Accepts s) := decidable_of_iff _ accepts_iff_unread.symm

/-- Blanks at the front make no difference to where reading stops. -/
theorem scan_trimStart (s : Text) : (scan (trimStart s)).2 = (scan s).2 := by
  cases s with
  | nil => rfl
  | cons c s =>
    by_cases h : isBlank c = true
    · rw [scan_of_next?_some (next?_of_isBlank h s), trimStart, List.dropWhile_cons_of_pos h]
    · rw [trimStart, List.dropWhile_cons_of_neg h]

/-- A piece at the front makes no difference to where reading stops. -/
theorem scan_append_of_shape {kind : Kind} {piece : Text} (h : Shape kind piece) (rest : Text) :
    (scan (piece ++ rest)).2 = (scan rest).2 := by
  by_cases hkind : kind = .whitespace
  -- The blanks may go on in `rest`, so that the piece need not be a token that is read.
  · subst hkind
    rw [← scan_trimStart (piece ++ rest), trimStart, List.dropWhile_append_of_pos h.2]
    exact scan_trimStart rest
  · have hnext : next? (piece ++ rest) = some (⟨kind, piece⟩, rest) :=
      next?_of_shape h fun hblank => absurd hblank hkind
    rw [scan_of_next?_some hnext]

/-- Pieces at the front make no difference to where reading stops. -/
theorem scan_flatten_append : ∀ {pieces : List Text}, (∀ p ∈ pieces, ∃ kind, Shape kind p) →
    ∀ rest, (scan (pieces.flatten ++ rest)).2 = (scan rest).2
  | [], _, _ => rfl
  | p :: pieces, h, rest => by
    obtain ⟨⟨kind, hp⟩, hpieces⟩ := List.forall_mem_cons.1 h
    rw [List.flatten_cons, List.append_assoc, scan_append_of_shape hp]
    exact scan_flatten_append hpieces rest

/-- The tokenizer accepts exactly the sequences of pieces, two runs of blanks in a row
included. -/
theorem accepts_iff {s : Text} :
    Accepts s ↔ ∃ pieces : List Text, s = pieces.flatten ∧ ∀ p ∈ pieces, ∃ kind, Shape kind p := by
  rw [accepts_iff_unread]
  refine ⟨fun h => ?_, ?_⟩
  · obtain ⟨hshape, hjoin, -⟩ := scan_eq_iff.1 (Prod.ext rfl h : scan s = ((scan s).1, []))
    refine ⟨(scan s).1.map Token.text, ?_, ?_⟩
    · rw [← List.flatMap_def]
      exact hjoin.symm
    · intro p hp
      obtain ⟨t, ht, rfl⟩ := List.mem_map.1 hp
      exact ⟨t.kind, hshape t ht⟩
  · rintro ⟨pieces, rfl, hpieces⟩
    simpa using scan_flatten_append hpieces []

theorem Shape.accepts {kind : Kind} {piece : Text} (h : Shape kind piece) : Accepts piece :=
  accepts_iff.2 ⟨[piece], by simp, by simpa using ⟨kind, h⟩⟩

/-! ## Placed tokens -/

/-- Ranges that lie one behind the other, the first from `start` on, the last up to `stop`. -/
def Contiguous (start stop : Nat) : List Placed → Prop
  | [] => start = stop
  | p :: placed => p.start = start ∧ Contiguous p.stop stop placed

/-- Placed tokens that cut the text into pieces of their kinds, from its first byte to its
last and between characters only, with no two runs of blanks in a row. -/
structure Decomposes (s : Text) (placed : List Placed) : Prop where
  shape : ∀ p ∈ placed, ∃ piece, slice? s p.start p.stop = some piece ∧ Shape p.kind piece
  contiguous : Contiguous 0 (byteSize s) placed
  start_lt_stop : ∀ p ∈ placed, p.start < p.stop
  boundary : ∀ p ∈ placed, IsBoundary s p.stop
  separate : (placed.map Placed.kind).IsChain Separate

theorem map_kind_place : ∀ (start : Nat) (tokens : List Token),
    (place start tokens).map Placed.kind = tokens.map Token.kind
  | _, [] => rfl
  | start, t :: tokens => by simp [place, map_kind_place _ tokens]

/-- Tokens that are placed one after the other leave no gap. -/
theorem contiguous_place : ∀ (start : Nat) (tokens : List Token),
    Contiguous start (start + byteSize (join tokens)) (place start tokens)
  | _, [] => rfl
  | start, t :: tokens => by
    refine ⟨rfl, ?_⟩
    rw [join_cons, byteSize_append, ← Nat.add_assoc]
    exact contiguous_place (start + byteSize t.text) tokens

/-- The range of a placed token holds the text of the token. -/
theorem slice?_of_mem_place {p : Placed} : ∀ {tokens : List Token} (before : Text),
    p ∈ place (byteSize before) tokens → ∃ t ∈ tokens, p.kind = t.kind ∧
      slice? (before ++ join tokens) p.start p.stop = some t.text
  | [], _, h => by simp [place] at h
  | t :: tokens, before, h => by
    rcases List.mem_cons.1 h with rfl | h
    · exact ⟨t, by simp, rfl, slice?_eq_some_iff.2 ⟨before, join tokens, rfl, rfl, rfl⟩⟩
    · rw [← byteSize_append] at h
      obtain ⟨u, hu, hkind, hslice⟩ := slice?_of_mem_place _ h
      refine ⟨u, by simp [hu], hkind, ?_⟩
      rwa [join_cons, ← List.append_assoc]

/-- Ranges that hold pieces and reach to the end of the text place the tokens they cut out
of it. -/
theorem exists_place_eq : ∀ {placed : List Placed} (before : Text) {rest : Text},
    Contiguous (byteSize before) (byteSize (before ++ rest)) placed →
    (∀ p ∈ placed, ∃ piece, slice? (before ++ rest) p.start p.stop = some piece ∧
      Shape p.kind piece) →
    ∃ tokens, join tokens = rest ∧ place (byteSize before) tokens = placed ∧
      ∀ t ∈ tokens, Shape t.kind t.text
  | [], before, rest, hcont, _ => by
    have hsize : byteSize before = byteSize (before ++ rest) := hcont
    rw [byteSize_append] at hsize
    obtain rfl : rest = [] := byteSize_eq_zero_iff.1 (by omega)
    exact ⟨[], rfl, rfl, by simp⟩
  | p :: placed, before, rest, hcont, hpieces => by
    obtain ⟨hstart, hcont⟩ := hcont
    obtain ⟨⟨piece, hslice, hshape⟩, hpieces⟩ := List.forall_mem_cons.1 hpieces
    obtain ⟨before', after, hs, hbefore, hstop⟩ := slice?_eq_some_iff.1 hslice
    obtain ⟨rfl, rfl⟩ := append_inj_of_byteSize hs (hstart.symm.trans hbefore.symm)
    rw [← List.append_assoc] at hcont hpieces
    have hsize : p.stop = byteSize (before ++ piece) := by
      rw [byteSize_append, hbefore, hstop]
    rw [hsize] at hcont
    obtain ⟨tokens, rfl, rfl, htokens⟩ := exists_place_eq _ hcont hpieces
    refine ⟨⟨p.kind, piece⟩ :: tokens, rfl, ?_, List.forall_mem_cons.2 ⟨hshape, htokens⟩⟩
    rw [place, ← byteSize_append, ← hsize, ← hstart]

/-- Tokens that split a text, placed from its start, decompose it. -/
theorem decomposes_place {s : Text} {tokens : List Token} (h : Splits s tokens) :
    Decomposes s (place 0 tokens) := by
  have hslice : ∀ p ∈ place 0 tokens, ∃ t ∈ tokens, p.kind = t.kind ∧
      slice? s p.start p.stop = some t.text := by
    intro p hp
    rw [← h.join_eq]
    exact slice?_of_mem_place [] hp
  refine ⟨fun p hp => ?_, ?_, fun p hp => ?_, fun p hp => ?_, ?_⟩
  · obtain ⟨t, ht, hkind, hp⟩ := hslice p hp
    exact ⟨t.text, hp, hkind ▸ h.shape t ht⟩
  · have hcont := contiguous_place 0 tokens
    rwa [h.join_eq, Nat.zero_add] at hcont
  · obtain ⟨t, ht, -, hp⟩ := hslice p hp
    obtain ⟨-, -, -, -, hstop⟩ := slice?_eq_some_iff.1 hp
    have := mt byteSize_eq_zero_iff.1 (h.shape t ht).ne_nil
    omega
  · obtain ⟨t, -, -, hp⟩ := hslice p hp
    exact isBoundary_of_slice? hp
  · rw [map_kind_place]
    exact h.separate

/-- A token of a definition covers a slice of the shape that its kind has. -/
theorem exists_shape_of_tokenize {definition : Text} {placed : List Placed}
    (h : tokenize definition = .ok placed) : ∀ p ∈ placed, ∃ piece,
      slice? definition p.start p.stop = some piece ∧ Shape p.kind piece := by
  obtain ⟨tokens, hscan, rfl⟩ := tokenize_eq_ok_iff.1 h
  exact (decomposes_place (scan_eq_iff.1 hscan)).shape

/-- A definition is accepted if and only if it is a sequence of pieces, and the tokens it is
read as are the only ones that decompose it without two runs of blanks in a row. -/
theorem tokenize_decomposes (rule definition : Text) :
    ((∃ placed, Grammar.tokenize rule definition = .ok placed) ↔
      ∃ pieces : List Text, definition = pieces.flatten ∧
        ∀ p ∈ pieces, ∃ kind, Shape kind p) ∧
    ∀ placed, Grammar.tokenize rule definition = .ok placed ↔ Decomposes definition placed := by
  have htokenize : ∀ placed, Grammar.tokenize rule definition = .ok placed ↔
      tokenize definition = .ok placed := by
    intro placed
    unfold Grammar.tokenize
    split
    · next h => rw [h]; simp
    · next h => rw [h]; simp
  simp only [htokenize]
  refine ⟨accepts_iff, fun placed => ⟨fun h => ?_, fun h => ?_⟩⟩
  · obtain ⟨tokens, hscan, rfl⟩ := tokenize_eq_ok_iff.1 h
    exact decomposes_place (scan_eq_iff.1 hscan)
  · obtain ⟨tokens, hjoin, hplace, hshape⟩ := exists_place_eq [] h.contiguous h.shape
    refine tokenize_eq_ok_iff.2 ⟨tokens, scan_eq_iff.2 ⟨hshape, hjoin, ?_⟩, hplace⟩
    rw [← map_kind_place (byteSize []), hplace]
    exact h.separate

end Rulebook.Token
