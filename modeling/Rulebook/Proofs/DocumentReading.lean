import Mathlib.Data.List.Basic
import Rulebook.Grammar.Document
import Rulebook.Proofs.JsonReader

/-!
# Documents read back

A reader of JSON texts gives back of the document of a grammar one object, whose members are
the rules in their order, if there is a document at all (`parse?_document`). The proof goes up
from the characters of a string (`char?_escape`) over strings (`string?_quote`) and members
(`member?_member`) to the members one after another (`items?_members`). So a document tells its
rules, and the indent as well if there are any.
-/

namespace Rulebook

open Text

namespace Json

/-! ## Strings -/

theorem hexValue?_hexDigit : ∀ n < 16, Toml.hexValue? (Grammar.hexDigit n) = some n := by decide

/-- The four digits of an escaped control character are read as its code. -/
theorem unit?_hexDigit {n : Nat} (h : n < 0x20) (rest : Text) :
    unit? ('0' :: '0' :: Grammar.hexDigit (n / 16) :: Grammar.hexDigit (n % 16) :: rest) =
      some (n, rest) := by
  have hzero : Toml.hexValue? '0' = some 0 := by decide
  have hhigh := hexValue?_hexDigit (n / 16) (by omega)
  have hlow := hexValue?_hexDigit (n % 16) (by omega)
  have hsum : n / 16 * 16 + n % 16 = n := by omega
  simp [unit?, hzero, hhigh, hlow, hsum]

/-- A character that is escaped is read back. -/
theorem char?_escape (c : Char) (rest : Text) :
    char? (Grammar.escape c ++ rest) = some (c, rest) := by
  fun_cases Grammar.escape c with
  | case8 c _ _ _ _ _ _ _ hcontrol =>
    have hunit := unit?_hexDigit hcontrol rest
    have hplane : c.toNat < 0xD800 ∨ 0xDFFF < c.toNat := by omega
    show numbered? ('0' :: '0' :: _ :: _ :: rest) = _
    rw [numbered?, hunit]
    simp [hplane, Char.ofNat_toNat]
  | case9 c hquote hbackslash _ _ _ _ _ hcontrol =>
    have hplain : ¬(c.toNat < 0x20 ∨ c = '"' ∨ c = '\\') := by
      rintro (h | h | h)
      · exact hcontrol h
      · exact hquote h
      · exact hbackslash h
    rw [List.singleton_append, char?.eq_4 _ _ (fun _ h => absurd h hbackslash)
      (fun _ _ h => absurd h hbackslash), if_neg hplain]
  | _ => rfl

/-- Escaped characters are read back one by one up to the closing quote. -/
theorem body?_flatMap_escape : ∀ s rest : Text,
    body? (s.flatMap Grammar.escape ++ '"' :: rest) = some (s, rest)
  | [], rest => body?_of_char?_none rfl
  | c :: s, rest => by
    rw [List.flatMap_cons, List.append_assoc, body?_of_char?_some (char?_escape c _),
      body?_flatMap_escape s rest]
    rfl

/-- A string that is written is read back, whatever comes after it. -/
theorem string?_quote (s rest : Text) : string? (Grammar.quote s ++ rest) = some (s, rest) := by
  have hafter : after? ['"'] (Grammar.quote s ++ rest) =
      some (s.flatMap Grammar.escape ++ '"' :: rest) :=
    after?_eq_some_iff.2 (by simp [Grammar.quote])
  rw [string?, hafter]
  exact body?_flatMap_escape s rest

/-! ## Members -/

theorem skip_quote (s rest : Text) :
    skip (Grammar.quote s ++ rest) = Grammar.quote s ++ rest := by
  simp [skip, Grammar.quote, isSpace]

theorem skip_spaces (n : Nat) (s : Text) : skip ('\n' :: List.replicate n ' ' ++ s) = skip s := by
  have hspaces : ∀ c ∈ '\n' :: List.replicate n ' ', isSpace c = true := by
    simp +contextual [isSpace]
  exact List.dropWhile_append_of_pos hspaces

theorem value?_quote (depth : Nat) (s rest : Text) :
    value? depth (Grammar.quote s ++ rest) = some (.string s, rest) := by
  have hread := string?_quote s rest
  rw [Grammar.quote, List.cons_append, List.cons_append] at hread ⊢
  rw [value?.eq_1, hread]
  rfl

/-- The member that a rule is written as, with the string of its definition. -/
def ofRule (r : Rule) : Text × Json := (r.name, .string r.definition)

theorem skip_member (indent : Nat) (r : Rule) (rest : Text) :
    skip (Grammar.member indent r ++ rest) =
      Grammar.quote r.name ++ ':' :: ' ' :: (Grammar.quote r.definition ++ rest) := by
  have hmember : Grammar.member indent r ++ rest = '\n' :: List.replicate indent ' ' ++
      (Grammar.quote r.name ++ ':' :: ' ' :: (Grammar.quote r.definition ++ rest)) := by
    simp [Grammar.member]
  rw [hmember, skip_spaces, skip_quote]

/-- A rule that is written as a member is read back as one. -/
theorem member?_member (depth indent : Nat) (r : Rule) (rest : Text) :
    member? (value? depth) (skip (Grammar.member indent r ++ rest)) = some (ofRule r, rest) := by
  have hcolon : ∀ s : Text, skip (':' :: s) = ':' :: s := fun s => by simp [skip, isSpace]
  have hspace : ∀ s : Text, skip (' ' :: s) = skip s := fun s => by simp [skip, isSpace]
  rw [skip_member, member?, string?_quote]
  simp only [Option.bind_eq_bind, Option.bind_some, hcolon, after?]
  simp [hspace, skip_quote, value?_quote, ofRule]

/-- There is at most one piece more than there are characters in all. -/
theorem length_le_length_joinWith (mark : Char) : ∀ pieces : List Text,
    pieces.length ≤ (joinWith [mark] pieces).length + 1
  | [] => by simp
  | [_] => by simp
  | piece :: next :: pieces => by
    have ih := length_le_length_joinWith mark (next :: pieces)
    simp only [joinWith, List.length_append, List.length_cons, List.length_nil] at ih ⊢
    omega

/-- The members that rules are written as, with commas between, are read up to the end of the
object. -/
theorem items?_members (depth indent : Nat) : ∀ (fuel : Nat) (r : Rule) (rules : List Rule),
    rules.length < fuel →
    items? (member? (value? depth)) '}' fuel
      (joinWith [','] ((r :: rules).map (Grammar.member indent)) ++ ['\n', '}']) =
      some ((r :: rules).map ofRule, [])
  | 0, _, _, h => absurd h (Nat.not_lt_zero _)
  | fuel + 1, r, [], _ => by
    have hread := member?_member depth indent r ['\n', '}']
    have hskip : skip ['\n', '}'] = ['}'] := by decide
    rw [List.map_singleton, joinWith, items?, hread]
    simp [hskip, after?]
  | fuel + 1, r, next :: rules, h => by
    have hread := member?_member depth indent r
      (',' :: (joinWith [','] ((next :: rules).map (Grammar.member indent)) ++ ['\n', '}']))
    have ih := items?_members depth indent fuel next rules (by simpa using h)
    have hjoin : joinWith [','] ((r :: next :: rules).map (Grammar.member indent)) ++ ['\n', '}'] =
        Grammar.member indent r ++ ',' ::
          (joinWith [','] ((next :: rules).map (Grammar.member indent)) ++ ['\n', '}']) := by
      simp [joinWith]
    have hcomma : ∀ s : Text, skip (',' :: s) = ',' :: s := fun s => by simp [skip, isSpace]
    rw [hjoin, items?, hread]
    simp only [Option.bind_eq_bind, Option.bind_some, hcomma, ih]
    rfl

/-- The members between the braces are read back as the rules. -/
theorem enclosed?_members (depth indent : Nat) (r : Rule) (rules : List Rule) :
    enclosed? (member? (value? depth)) '}'
      (joinWith [','] ((r :: rules).map (Grammar.member indent)) ++ ['\n', '}']) =
      some ((r :: rules).map ofRule, []) := by
  have hclosing : after? ['}']
      (skip (joinWith [','] ((r :: rules).map (Grammar.member indent)) ++ ['\n', '}'])) = none := by
    cases rules <;> simp [joinWith, skip_member, Grammar.quote, after?]
  have hlength := length_le_length_joinWith ',' ((r :: rules).map (Grammar.member indent))
  rw [enclosed?, hclosing]
  refine items?_members depth indent _ r rules ?_
  simp only [List.length_map, List.length_cons, List.length_append] at hlength ⊢
  omega

/-! ## Documents -/

/-- What is laid out for a grammar is read as one object with the rules in their order. -/
theorem parse?_layout (g : Grammar) (indent : Nat) :
    parse? (g.layout indent) = some (.object (g.rules.map ofRule)) := by
  obtain ⟨rules⟩ := g
  cases rules with
  | nil => rfl
  | cons r rules =>
    have hlayout : Grammar.layout ⟨r :: rules⟩ indent =
        '{' :: (joinWith [','] ((r :: rules).map (Grammar.member indent)) ++ ['\n', '}']) := rfl
    have hskip : ∀ s : Text, skip ('{' :: s) = '{' :: s := fun s => by simp [skip, isSpace]
    rw [hlayout, parse?, hskip, maxDepth, value?_brace, enclosed?_members]
    rfl

theorem ofRule_injective : Function.Injective ofRule := by
  rintro ⟨name, definition⟩ ⟨name', definition'⟩ h
  simpa [ofRule] using h

/-- With a rule a layout starts with a brace, a line feed, as many spaces as the indent, and a
quote. -/
theorem exists_layout_eq {g : Grammar} (hg : g.rules ≠ []) (indent : Nat) :
    ∃ rest, g.layout indent = '{' :: '\n' :: (List.replicate indent ' ' ++ '"' :: rest) := by
  obtain ⟨_ | ⟨r, _ | ⟨next, rules⟩⟩⟩ := g
  · exact absurd rfl hg
  · exact ⟨_, by simp [Grammar.layout, joinWith, Grammar.member, Grammar.quote]; rfl⟩
  · exact ⟨_, by simp [Grammar.layout, joinWith, Grammar.member, Grammar.quote]; rfl⟩

/-- The blanks before the first member give the indent. -/
theorem indent_eq_of_layout_eq {g h : Grammar} (hg : g.rules ≠ []) (hh : h.rules ≠ [])
    {i j : Nat} (heq : g.layout i = h.layout j) : i = j := by
  have hspaces : ∀ (n : Nat) (rest : Text),
      (List.replicate n ' ' ++ '"' :: rest).takeWhile (· = ' ') = List.replicate n ' ' := by
    intro n rest
    rw [List.takeWhile_append_of_pos (by simp +contextual)]
    simp
  obtain ⟨rest, hrest⟩ := exists_layout_eq hg i
  obtain ⟨rest', hrest'⟩ := exists_layout_eq hh j
  rw [hrest, hrest', List.cons.injEq, List.cons.injEq] at heq
  have htake := congrArg (List.takeWhile (· = ' ')) heq.2.2
  rw [hspaces, hspaces] at htake
  simpa using congrArg List.length htake

/-- Two layouts are the same only of the same rules, and with the same indent if there are any. -/
theorem rules_eq_of_layout_eq {g h : Grammar} {i j : Nat} (heq : g.layout i = h.layout j) :
    g.rules = h.rules ∧ (g.rules ≠ [] → i = j) := by
  have hread := parse?_layout g i
  rw [heq, parse?_layout h j, Option.some.injEq, Json.object.injEq] at hread
  have hrules : h.rules = g.rules := List.map_injective_iff.2 ofRule_injective hread
  exact ⟨hrules.symm, fun hg => indent_eq_of_layout_eq hg (hrules ▸ hg) heq⟩

end Json

/-! ## How long a document is -/

namespace Grammar

theorem byteSize_spaces (n : Nat) : byteSize (List.replicate n ' ') = n := by
  induction n with
  | zero => rfl
  | succ n ih =>
    rw [List.replicate_succ, byteSize, ih]
    exact Nat.add_comm 1 n

/-- A wider indent makes no member shorter. -/
theorem byteSize_member_le {i j : Nat} (h : i ≤ j) (r : Rule) :
    byteSize (member i r) ≤ byteSize (member j r) := by
  simp only [member, List.cons_append, byteSize_append, byteSize, byteSize_spaces]
  omega

theorem byteSize_joinWith_le (mark : Text) {f g : Rule → Text}
    (h : ∀ r, byteSize (f r) ≤ byteSize (g r)) : ∀ rules : List Rule,
      byteSize (joinWith mark (rules.map f)) ≤ byteSize (joinWith mark (rules.map g))
  | [] => Nat.le_refl _
  | [r] => h r
  | r :: next :: rules => by
    have ih := byteSize_joinWith_le mark h (next :: rules)
    have hr := h r
    simp only [List.map_cons, joinWith, byteSize_append] at ih ⊢
    omega

/-- A document that is not too long is not too long with fewer spaces. -/
theorem Fits.of_le {g : Grammar} {i j : Nat} (hle : i ≤ j) (h : g.Fits j) : g.Fits i := by
  refine ⟨Nat.le_trans hle h.1, Nat.le_trans ?_ h.2⟩
  obtain ⟨rules⟩ := g
  cases rules with
  | nil => exact Nat.le_refl _
  | cons r rules =>
    have hjoin := byteSize_joinWith_le [','] (byteSize_member_le hle) (r :: rules)
    simp only [layout, List.cons_append, byteSize, byteSize_append]
    omega

end Grammar

/-- There is a document of a grammar if neither the spaces nor what is laid out are too long for a
text, so with fewer spaces if with more, and with too many of them there is none, not even of the
grammar without rules. A reader of JSON texts reads a document as one object with a member for each
rule, in their order, whatever the names and definitions hold. Two grammars that are written alike
have the same rules in the same order, and are written with the same indent unless they have no
rules. -/
theorem parse?_document (g : Grammar) (indent : Nat) :
    ((∃ text, g.document indent = some text) ↔ g.Fits indent) ∧
    (∀ fewer ≤ indent, g.Fits indent → g.Fits fewer) ∧
    (maxSize < indent → g.document indent = none) ∧
    ∀ text, g.document indent = some text →
      Json.parse? text = some (.object (g.rules.map fun r => (r.name, .string r.definition))) ∧
      ∀ (h : Grammar) (indent' : Nat), h.document indent' = some text →
        g.rules = h.rules ∧ (g.rules ≠ [] → indent = indent') := by
  refine ⟨?_, fun fewer hle => Grammar.Fits.of_le hle,
    fun hmany => Grammar.document_eq_none_iff.2 fun hfits => absurd hfits.1 (Nat.not_le.2 hmany),
    fun text htext => ?_⟩
  · simp only [Grammar.document_eq_some_iff, exists_and_left, exists_eq', and_true]
  · obtain ⟨-, rfl⟩ := Grammar.document_eq_some_iff.1 htext
    refine ⟨Json.parse?_layout g indent, fun h indent' heq => ?_⟩
    exact Json.rules_eq_of_layout_eq (Grammar.document_eq_some_iff.1 heq).2.symm

/-- A name with a quote, a backslash and a null character, a definition that ends like a member
and an object, and the same grammar with that definition put together from two texts. With one space
too many there is no document of the grammar without rules. -/
theorem parse?_document_of_controls :
    let g : Grammar := ⟨[⟨"\"\\\x00".toList, "'é\x7f\x1f' \",\n\x7d".toList⟩, ⟨[], []⟩]⟩
    let h : Grammar := ⟨[Rule.extend ⟨"\"\\\x00".toList, "'é\x7f\x1f'".toList⟩ "\",\n\x7d".toList,
      ⟨[], []⟩]⟩
    let text := ("\x7b\n \"\\\"\\\\\\u0000\": \"'é\x7f\\u001f' \\\",\\n\x7d\",\n" ++
      " \"\": \"\"\n\x7d").toList
    g.document 1 = some text ∧ h.document 1 = some text ∧
      Json.parse? text = some (.object
        [("\"\\\x00".toList, .string "'é\x7f\x1f' \",\n\x7d".toList), ([], .string [])]) ∧
      g.rules = h.rules ∧ (g.rules ≠ [] → 1 = 1) ∧
      Grammar.document .empty 0x7FFFFFFFFFFFFFFF = some ['\x7b', '\x7d'] ∧
      Grammar.document .empty 0x8000000000000000 = none := by
  intro g h text
  have hg : g.document 1 = some text := by decide +kernel
  have hh : h.document 1 = some text := by decide +kernel
  obtain ⟨-, -, -, hdocument⟩ := parse?_document g 1
  obtain ⟨hread, hunique⟩ := hdocument text hg
  obtain ⟨hrules, hindent⟩ := hunique h 1 hh
  obtain ⟨-, -, hmany, -⟩ := parse?_document .empty 0x8000000000000000
  exact ⟨hg, hh, hread, hrules, hindent, by decide +kernel, hmany (by decide)⟩

end Rulebook
