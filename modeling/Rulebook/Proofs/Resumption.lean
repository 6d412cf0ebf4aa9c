import Rulebook.Proofs.Rules
import Rulebook.Proofs.SignificantTokens

/-!
# Where reading stops

The tokenizer reads the `consumed` characters of a text, a front that is accepted, and leaves the
`unread` rest. Behind a front that is accepted reading goes on as if it started there
(`unread_append_of_accepts`), so that no longer front is accepted than the one that is read
(`length_le_consumed`) : a definition is rejected behind the longest front of it that is accepted
(`tokenize_error_iff_longest`).

If a text goes on, all that matters of what was there is what was left of it
(`unread_append`). What was left can still become a token if it opens a delimiter and does not
close it, and in no other case (`exists_accepts_append_iff`). `tokenize_append` says what this
means for definitions that texts are appended to.
-/

namespace Rulebook

namespace Token

open Text

/-! ## What is read and what is left -/

/-- What the tokenizer leaves of a text : nothing, or the text from where it stops. -/
def unread (s : Text) : Text :=
  match tokenize s with
  | .ok _ => []
  | .error stop => stop.remainder

/-- How many characters of a text the tokenizer reads. -/
def consumed (s : Text) : Nat :=
  match tokenize s with
  | .ok _ => s.length
  | .error stop => stop.position

theorem unread_eq (s : Text) : unread s = (scan s).2 := by
  unfold unread tokenize
  rcases scan s with ⟨tokens, _ | ⟨c, rest⟩⟩ <;> rfl

theorem consumed_add_length_unread (s : Text) : consumed s + (unread s).length = s.length := by
  have hs := congrArg List.length (scan_append s)
  rw [List.length_append] at hs
  unfold consumed unread tokenize
  rcases h : scan s with ⟨tokens, _ | ⟨c, rest⟩⟩
  · rfl
  · rwa [h] at hs

theorem accepts_iff_unread_eq_nil {s : Text} : Accepts s ↔ unread s = [] := by
  rw [unread_eq, accepts_iff_unread]

/-- A rejection tells how far the scan came and what it left. -/
theorem tokenize_eq_error_iff {s : Text} {stop : Unread} :
    tokenize s = .error stop ↔ unread s ≠ [] ∧ stop = ⟨consumed s, unread s⟩ := by
  unfold consumed unread tokenize
  rcases scan s with ⟨tokens, _ | ⟨c, rest⟩⟩ <;> simp [eq_comm]

theorem shape_of_mem_scan (s : Text) : ∀ t ∈ (scan s).1, Shape t.kind t.text := by
  fun_induction scan s with
  | case1 => simp
  | case2 s t rest hnext tokens rest' heq ih =>
    rw [heq] at ih
    exact List.forall_mem_cons.2 ⟨(shape_of_next? hnext).1, ih⟩

theorem accepts_join {tokens : List Token} (h : ∀ t ∈ tokens, Shape t.kind t.text) :
    Accepts (join tokens) := by
  refine accepts_iff.2 ⟨tokens.map Token.text, List.flatMap_def, fun p hp => ?_⟩
  obtain ⟨t, ht, rfl⟩ := List.mem_map.1 hp
  exact ⟨t.kind, h t ht⟩

theorem take_consumed (s : Text) : s.take (consumed s) = join (scan s).1 := by
  have hs : join (scan s).1 ++ unread s = s := by rw [unread_eq, scan_append]
  have hlength := congrArg List.length hs
  rw [List.length_append, ← consumed_add_length_unread s] at hlength
  rw [← Nat.add_right_cancel hlength]
  exact (List.prefix_iff_eq_take.1 ⟨unread s, hs⟩).symm

/-- What is read and what is left make up the text. -/
theorem take_consumed_append_unread (s : Text) : s.take (consumed s) ++ unread s = s := by
  rw [take_consumed, unread_eq, scan_append]

theorem length_take_consumed (s : Text) : (s.take (consumed s)).length = consumed s := by
  have hlength := consumed_add_length_unread s
  rw [List.length_take]
  omega

/-- What is read of a text is a front of it that is accepted. -/
theorem accepts_take_consumed (s : Text) : Accepts (s.take (consumed s)) := by
  rw [take_consumed]
  exact accepts_join (shape_of_mem_scan s)

/-! ## Reading on -/

/-- Behind a front that is accepted, reading goes on as if the text started there. -/
theorem unread_append_of_accepts {front : Text} (h : Accepts front) (rest : Text) :
    unread (front ++ rest) = unread rest := by
  obtain ⟨pieces, rfl, hpieces⟩ := accepts_iff.1 h
  rw [unread_eq, unread_eq, scan_flatten_append hpieces]

/-- Behind a front that is accepted reading goes on as from a start. -/
theorem consumed_append_of_accepts {front : Text} (h : Accepts front) (rest : Text) :
    consumed (front ++ rest) = front.length + consumed rest := by
  have hall := consumed_add_length_unread (front ++ rest)
  have hrest := consumed_add_length_unread rest
  rw [unread_append_of_accepts h, List.length_append] at hall
  omega

/-- If a text goes on, what matters of it is what was left. -/
theorem unread_append (s t : Text) : unread (s ++ t) = unread (unread s ++ t) := by
  conv_lhs => rw [← take_consumed_append_unread s, List.append_assoc]
  exact unread_append_of_accepts (accepts_take_consumed s) _

/-- What is read of two texts is read of the first, and then of its rest with the second. -/
theorem consumed_append (s t : Text) :
    consumed (s ++ t) = consumed s + consumed (unread s ++ t) := by
  conv_lhs => rw [← take_consumed_append_unread s, List.append_assoc]
  rw [consumed_append_of_accepts (accepts_take_consumed s), length_take_consumed]

theorem unread_unread (s : Text) : unread (unread s) = unread s := by
  simpa using (unread_append s []).symm

/-- No front that is accepted is longer than what is read. -/
theorem length_le_consumed {front s : Text} (hfront : front <+: s) (h : Accepts front) :
    front.length ≤ consumed s := by
  obtain ⟨rest, rfl⟩ := hfront
  rw [consumed_append_of_accepts h]
  exact Nat.le_add_right _ _

/-! ## Delimiters left open -/

/-- The delimiters that open a token, each with the one that closes it. -/
def delimiters : List (Char × Char) := [('<', '>'), ('"', '"'), ('\'', '\'')]

/-- A text that opens a delimiter and does not close it. -/
def Unclosed (s : Text) : Prop :=
  ∃ opening closing body, (opening, closing) ∈ delimiters ∧ s = opening :: body ∧ closing ∉ body

/-- A front of what stands between delimiters, the opening one included, is all of it or leaves the
delimiter open. -/
theorem Enclosed.eq_or_unclosed {opening closing : Char} {body piece front : Text}
    (h : Enclosed opening closing body piece) (hdelimiters : (opening, closing) ∈ delimiters)
    (hfront : front <+: piece) (hne : front ≠ []) : front = piece ∨ Unclosed front := by
  obtain ⟨rfl, hclosing⟩ := h
  obtain ⟨c, front, rfl⟩ := List.exists_cons_of_ne_nil hne
  obtain ⟨rfl, htail⟩ := List.cons_prefix_cons.1 hfront
  rcases List.prefix_concat_iff.1 htail with rfl | htail
  · exact Or.inl rfl
  · exact Or.inr ⟨c, closing, front, hdelimiters, rfl, fun hmem => hclosing (htail.subset hmem)⟩

/-- A front of a piece is a piece of the same kind, or it leaves a delimiter open. -/
theorem Shape.shape_or_unclosed_of_prefix {kind : Kind} {piece front : Text} (h : Shape kind piece)
    (hfront : front <+: piece) (hne : front ≠ []) : Shape kind front ∨ Unclosed front := by
  cases kind with
  | whitespace => exact Or.inl ⟨hne, fun c hc => h.2 c (hfront.subset hc)⟩
  | nonterminal =>
    obtain ⟨name, hname, henclosed⟩ := h
    refine (henclosed.eq_or_unclosed (by simp [delimiters]) hfront hne).imp_left ?_
    rintro rfl
    exact ⟨name, hname, henclosed⟩
  | doubleQuoted | singleQuoted =>
    obtain ⟨body, henclosed⟩ := h
    refine (henclosed.eq_or_unclosed (by simp [delimiters]) hfront hne).imp_left ?_
    rintro rfl
    exact ⟨body, henclosed⟩
  | alternation =>
    obtain rfl : piece = ['|'] := h
    obtain ⟨c, front, rfl⟩ := List.exists_cons_of_ne_nil hne
    obtain ⟨rfl, htail⟩ := List.cons_prefix_cons.1 hfront
    obtain rfl := List.prefix_nil.1 htail
    exact Or.inl rfl

/-- Something is read of a text that starts with a piece. -/
theorem unread_ne_self_of_shape {kind : Kind} {piece : Text} (h : Shape kind piece)
    (rest : Text) : unread (piece ++ rest) ≠ piece ++ rest := by
  intro heq
  have hlength := consumed_add_length_unread (piece ++ rest)
  rw [heq, consumed_append_of_accepts h.accepts] at hlength
  have := List.length_pos_iff.2 h.ne_nil
  omega

/-- If a text is rejected and goes on to one that is accepted, what was left of it is an open
delimiter. -/
theorem accepts_or_unclosed_of_append {s t : Text} (h : Accepts (s ++ t)) :
    Accepts s ∨ Unclosed (unread s) := by
  rw [accepts_iff_unread_eq_nil]
  refine or_iff_not_imp_left.2 fun hne => ?_
  rw [accepts_iff_unread_eq_nil, unread_append, ← accepts_iff_unread_eq_nil] at h
  obtain ⟨_ | ⟨piece, pieces⟩, hflatten, hpieces⟩ := accepts_iff.1 h
  · exact absurd (List.append_eq_nil_iff.1 hflatten).1 hne
  · obtain ⟨⟨kind, hpiece⟩, -⟩ := List.forall_mem_cons.1 hpieces
    rw [List.flatten_cons] at hflatten
    -- The first piece ends within what was left, which is read no further, or behind it.
    rcases List.append_eq_append_iff.1 hflatten with ⟨more, hmore, -⟩ | ⟨more, hmore, -⟩
    · have hcases := hpiece.shape_or_unclosed_of_prefix ⟨more, hmore.symm⟩ hne
      refine hcases.resolve_left fun hfront => ?_
      exact unread_ne_self_of_shape hfront [] (by simpa using unread_unread s)
    · exact absurd (hmore ▸ unread_unread s) (unread_ne_self_of_shape hpiece more)

/-- An open delimiter that is closed behind a space becomes a piece. With the space a name cannot
be empty. -/
theorem exists_shape_of_unclosed {s : Text} (h : Unclosed s) :
    ∃ closing kind, Shape kind (s ++ [' ', closing]) := by
  obtain ⟨opening, closing, body, hdelimiters, rfl, hclosing⟩ := h
  have henclosed (hspace : closing ≠ ' ') :
      Enclosed opening closing (body ++ [' ']) (opening :: body ++ [' ', closing]) :=
    ⟨by simp, by simp [hclosing, hspace]⟩
  simp only [delimiters, List.mem_cons, Prod.mk.injEq, List.not_mem_nil, or_false] at hdelimiters
  rcases hdelimiters with ⟨rfl, rfl⟩ | ⟨rfl, rfl⟩ | ⟨rfl, rfl⟩
  · exact ⟨'>', .nonterminal, body ++ [' '], by simp, henclosed (by decide)⟩
  · exact ⟨'"', .doubleQuoted, body ++ [' '], henclosed (by decide)⟩
  · exact ⟨'\'', .singleQuoted, body ++ [' '], henclosed (by decide)⟩

theorem accepts_space : Accepts [' '] :=
  accepts_of_isBlank (List.forall_mem_singleton.2 (by decide))

/-- A text can be completed to one that is accepted if and only if it is accepted or what is left of
it is an open delimiter. -/
theorem exists_accepts_append_iff {s : Text} :
    (∃ t, Accepts (s ++ ' ' :: t)) ↔ Accepts s ∨ Unclosed (unread s) := by
  refine ⟨fun ⟨t, h⟩ => accepts_or_unclosed_of_append h, ?_⟩
  rintro (h | h)
  · exact ⟨[], h.append accepts_space⟩
  · obtain ⟨closing, kind, hshape⟩ := exists_shape_of_unclosed h
    refine ⟨[closing], ?_⟩
    rw [accepts_iff_unread_eq_nil, unread_append, ← accepts_iff_unread_eq_nil]
    exact hshape.accepts

end Token

/-! ## Definitions that are rejected -/

theorem Grammar.exists_tokenize_eq_ok_iff {rule definition : Text} :
    (∃ placed, tokenize rule definition = .ok placed) ↔ Token.Accepts definition := by
  unfold tokenize Token.Accepts
  cases Token.tokenize definition <;> simp

theorem Grammar.tokenize_eq_error_iff {rule definition : Text} {e : Error} :
    tokenize rule definition = .error e ↔ Token.unread definition ≠ [] ∧
      e = .invalidSyntax rule (Token.consumed definition) (Token.unread definition) := by
  unfold tokenize
  cases h : Token.tokenize definition with
  | ok placed =>
    have hnil := Token.accepts_iff_unread_eq_nil.1 ⟨placed, h⟩
    simp [hnil]
  | error stop =>
    obtain ⟨hne, rfl⟩ := Token.tokenize_eq_error_iff.1 h
    simp [hne, eq_comm]

namespace Token

open Text

/-- The first `position` characters of a text are accepted and no longer front of it is, and the
remainder, which is not empty, comes after them. The tokens before it reach up to the byte at
which the text is cut. -/
structure LongestFront (s : Text) (position : Nat) (remainder : Text) : Prop where
  append_eq : s.take position ++ remainder = s
  ne_nil : remainder ≠ []
  accepts : Accepts (s.take position)
  longest : ∀ longer, longer <+: s → position < longer.length → ¬Accepts longer
  cut : ∃ placed offset, tokenize (s.take position) = .ok placed ∧ Contiguous 0 offset placed ∧
    cutBytes? offset s = some (s.take position, remainder)

/-- What is read of a text that is rejected is the longest front of it that is accepted. -/
theorem longestFront_iff {s remainder : Text} {position : Nat} :
    LongestFront s position remainder ↔
      unread s ≠ [] ∧ position = consumed s ∧ remainder = unread s := by
  refine ⟨fun h => ?_, ?_⟩
  · have hle := length_le_consumed (List.take_prefix position s) h.accepts
    have hge : consumed s ≤ position := by
      rw [← length_take_consumed s]
      refine Nat.le_of_not_lt fun hlt => ?_
      exact h.longest _ (List.take_prefix _ s) hlt (accepts_take_consumed s)
    -- As something remains, the position lies within the text.
    have hpos := List.length_pos_iff.2 h.ne_nil
    have happend := congrArg List.length h.append_eq
    rw [List.length_append] at happend
    rw [List.length_take] at hle happend
    obtain rfl : position = consumed s := by omega
    have hremainder : remainder = unread s :=
      List.append_cancel_left (h.append_eq.trans (take_consumed_append_unread s).symm)
    exact ⟨hremainder ▸ h.ne_nil, rfl, hremainder⟩
  · rintro ⟨hne, rfl, rfl⟩
    obtain ⟨placed, hplaced⟩ := accepts_take_consumed s
    obtain ⟨tokens, hscan, rfl⟩ := tokenize_eq_ok_iff.1 hplaced
    have hcontiguous := (decomposes_place (scan_eq_iff.1 hscan)).contiguous
    refine ⟨take_consumed_append_unread s, hne, accepts_take_consumed s,
      fun longer hlonger hlt h => ?_, _, _, hplaced, hcontiguous,
      cutBytes?_eq_some_iff.2 ⟨(take_consumed_append_unread s).symm, rfl⟩⟩
    exact absurd (length_le_consumed hlonger h) (Nat.not_le.2 hlt)

/-- A definition is rejected behind the longest front of it that is accepted. -/
theorem tokenize_error_iff_longest (rule definition : Text) (e : Error) :
    Grammar.tokenize rule definition = .error e ↔
      ∃ position remainder, e = .invalidSyntax rule position remainder ∧
        LongestFront definition position remainder := by
  rw [Grammar.tokenize_eq_error_iff]
  simp only [longestFront_iff]
  refine ⟨?_, ?_⟩
  · rintro ⟨hne, rfl⟩
    exact ⟨_, _, rfl, hne, rfl, rfl⟩
  · rintro ⟨_, _, rfl, hne, rfl, rfl⟩
    exact ⟨hne, rfl⟩

/-- Behind characters of two bytes an angle that can never be closed, although one closes later. -/
theorem tokenize_error_iff_longest_behind_umlauts :
    let definition := "'ü' \"ö\"<>|<é>".toList
    Grammar.tokenize "r".toList definition =
        .error (.invalidSyntax "r".toList 7 "<>|<é>".toList) ∧
      LongestFront definition 7 "<>|<é>".toList := by
  have herror : Grammar.tokenize "r".toList "'ü' \"ö\"<>|<é>".toList =
      .error (.invalidSyntax "r".toList 7 "<>|<é>".toList) := by cbv
  intro definition
  obtain ⟨position, remainder, heq, hlongest⟩ := (tokenize_error_iff_longest _ _ _).1 herror
  simp only [Error.invalidSyntax.injEq, true_and] at heq
  obtain ⟨rfl, rfl⟩ := heq
  exact ⟨herror, hlongest⟩

/-! ## Definitions that grow -/

/-- A text behind a definition is read as if it stood behind what was left of the definition, and an
error lies further on by as many characters as were read. A definition that is accepted stays so
when a text that is accepted is appended to it; one that is rejected can still be accepted when
some text is appended, if and only if what was left of it is an open delimiter. -/
theorem tokenize_append (rule definition text : Text) :
    (Accepts (definition ++ text) ↔ Accepts (unread definition ++ text)) ∧
    (∀ position remainder,
      Grammar.tokenize rule (unread definition ++ text) =
        .error (.invalidSyntax rule position remainder) ↔
      Grammar.tokenize rule (definition ++ text) =
        .error (.invalidSyntax rule (consumed definition + position) remainder)) ∧
    ∀ (g : Grammar) (name : Text), g.get? name = some definition →
      (Accepts definition → Accepts text → ∃ grown, g.append name text = .ok grown ∧
        grown.get? name = some (definition ++ ' ' :: text) ∧
        Accepts (definition ++ ' ' :: text)) ∧
      (¬Accepts definition → ((∃ more grown, g.append name more = .ok grown ∧
        grown.get? name = some (definition ++ ' ' :: more) ∧
        Accepts (definition ++ ' ' :: more)) ↔ Unclosed (unread definition))) := by
  refine ⟨?_, fun position remainder => ?_, fun g name hfound => ⟨fun hdefinition htext => ?_,
    fun hdefinition => ?_⟩⟩
  · rw [accepts_iff_unread_eq_nil, unread_append, ← accepts_iff_unread_eq_nil]
  · rw [Grammar.tokenize_eq_error_iff, Grammar.tokenize_eq_error_iff, unread_append definition text,
      consumed_append definition text]
    simp
  · obtain ⟨grown, hgrown, hlonger⟩ := Grammar.exists_append_eq hfound text
    exact ⟨grown, hgrown, hlonger, hdefinition.append (accepts_space.append htext)⟩
  · refine Iff.trans ?_ (exists_accepts_append_iff.trans (or_iff_right hdefinition))
    refine exists_congr fun more => ⟨?_, fun h => ?_⟩
    · rintro ⟨grown, -, -, h⟩
      exact h
    · obtain ⟨grown, hgrown, hlonger⟩ := Grammar.exists_append_eq hfound more
      exact ⟨grown, hgrown, hlonger, h⟩

/-- A quote that is open in a definition, closed by a text that opens an angle, and closed by
another text; and a definition that is accepted with and without a text. -/
theorem tokenize_append_across_quote :
    let g : Grammar := ⟨[⟨"a".toList, "'x'".toList⟩, ⟨"b".toList, "<ä> \"op".toList⟩]⟩
    Grammar.tokenize "b".toList "<ä> \"open\" | <c".toList =
        .error (.invalidSyntax "b".toList 13 "<c".toList) ∧
      ¬Accepts "<ä> \"open\" | <c".toList ∧
      (∃ grown, g.append "a".toList "| 'y'".toList = .ok grown ∧
        grown.get? "a".toList = some "'x' | 'y'".toList ∧ Accepts "'x' | 'y'".toList) ∧
      ∃ more grown, g.append "b".toList more = .ok grown ∧
        grown.get? "b".toList = some ("<ä> \"op".toList ++ ' ' :: more) ∧
        Accepts ("<ä> \"op".toList ++ ' ' :: more) := by
  have hunread : unread "<ä> \"op".toList = "\"op".toList := by cbv
  have hconsumed : consumed "<ä> \"op".toList = 4 := by cbv
  have hrest : Grammar.tokenize "b".toList "\"open\" | <c".toList =
      .error (.invalidSyntax "b".toList 9 "<c".toList) := by cbv
  have hrejected : ¬Accepts "\"open\" | <c".toList := by
    rw [accepts_iff_unread_eq_nil]
    exact (Grammar.tokenize_eq_error_iff.1 hrest).1
  have hquoted (c : Char) (hc : '\'' ∉ [c]) : Accepts ['\'', c, '\''] :=
    Shape.accepts (show Shape .singleQuoted _ from ⟨[c], rfl, hc⟩)
  have hbar : Accepts ['|'] := Shape.accepts (show Shape .alternation _ from rfl)
  have haccepted : Accepts "'x'".toList := hquoted 'x' (by decide)
  have hmore : Accepts "| 'y'".toList :=
    hbar.append (accepts_space.append (hquoted 'y' (by decide)))
  have hopen : Unclosed (unread "<ä> \"op".toList) := by
    rw [hunread]
    exact ⟨'"', '"', "op".toList, by decide, rfl, by decide⟩
  intro g
  obtain ⟨haccepts, herror, hgrows⟩ :=
    tokenize_append "b".toList "<ä> \"op".toList "en\" | <c".toList
  rw [hunread] at haccepts herror
  rw [hconsumed] at herror
  have hb : g.get? "b".toList = some "<ä> \"op".toList := by decide
  have hnot : ¬Accepts "<ä> \"op".toList := by
    rw [accepts_iff_unread_eq_nil, hunread]
    decide
  obtain ⟨-, -, hstays⟩ := tokenize_append "a".toList "'x'".toList "| 'y'".toList
  exact ⟨(herror 9 _).1 hrest, mt haccepts.1 hrejected,
    (hstays g "a".toList (by decide)).1 haccepted hmore,
    ((hgrows g "b".toList hb).2 hnot).2 hopen⟩

end Token

end Rulebook
