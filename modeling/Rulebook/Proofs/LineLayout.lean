import Rulebook.Proofs.Listing
import Rulebook.Proofs.SignificantTokens

/-!
# Rules laid out over lines

A text lays lines out if each of them stands on a line of its own, with blanks around it, and other
lines are blank; breaks of every kind may end them (`Text.LaysOut`). What is read of such a text
is the lines (`Text.LaysOut.content_eq`). A definition can be cut into parts, the first behind the
header and each of the others on a line of its own : no part is taken for a header, the parts are
joined with single spaces, and the significant tokens are those of the parts
(`ofText_layout`).
-/

namespace Rulebook

open Text

namespace Text

/-! ## Lines of a text -/

/-- Blanks that break no line. -/
def Padding (s : Text) : Prop := ∀ c ∈ s, isBlank c = true ∧ c ≠ '\r' ∧ c ≠ '\n'

instance (s : Text) : Decidable (Padding s) :=
  List.decidableBAll (fun c => isBlank c = true ∧ c ≠ '\r' ∧ c ≠ '\n') s

/-- The text has the lines in this order, with blanks around them and blank lines anywhere. -/
inductive LaysOut : List Text → Text → Prop where
  | blank {padding : Text} (hpadding : Padding padding) : LaysOut [] padding
  | line {front line back : Text} (hfront : Padding front) (hback : Padding back) :
    LaysOut [line] (front ++ (line ++ back))
  | append {ls ms : List Text} {s b t : Text} (hs : LaysOut ls s) (hb : b ∈ breaks)
    (ht : LaysOut ms t) : LaysOut (ls ++ ms) (s ++ (b ++ t))

theorem Padding.unbroken {s : Text} (h : Padding s) : Unbroken s := fun c hc => (h c hc).2

theorem Padding.isBlank {s : Text} (h : Padding s) : ∀ c ∈ s, isBlank c = true :=
  fun c hc => (h c hc).1

/-- What is read of a text that lays lines out is the lines, trimmed, but for blank ones. -/
theorem LaysOut.content_eq {ls : List Text} {text : Text} (h : LaysOut ls text)
    (hls : ∀ line ∈ ls, Unbroken line) : content text = (ls.map trim).filter (· ≠ []) := by
  induction h with
  | @blank padding hpadding =>
    have htrim : trim (padding ++ ([] ++ [])) = trim [] :=
      trim_append_append hpadding.isBlank (List.forall_mem_nil _) []
    rw [List.append_nil, List.append_nil] at htrim
    rw [content_of_unbroken hpadding.unbroken, htrim]
    rfl
  | @line front line back hfront hback =>
    have hunbroken : Unbroken (front ++ (line ++ back)) := by
      intro c hc
      rcases List.mem_append.1 hc with hc | hc
      · exact hfront.unbroken c hc
      · rcases List.mem_append.1 hc with hc | hc
        · exact hls line List.mem_cons_self c hc
        · exact hback.unbroken c hc
    rw [content_of_unbroken hunbroken, trim_append_append hfront.isBlank hback.isBlank,
      List.map_singleton]
  | append _ hb _ ihs iht =>
    rw [content_append_break hb, ihs fun line hline => hls line (List.mem_append_left _ hline),
      iht fun line hline => hls line (List.mem_append_right _ hline), List.map_append,
      List.filter_append]

end Text

/-! ## Rules in parts -/

theorem leading_map_continuation : ∀ texts : List Text,
    leading (texts.map .continuation) = texts
  | [] => rfl
  | text :: texts => congrArg (text :: ·) (leading_map_continuation texts)

theorem blocks_map_continuation : ∀ texts : List Text,
    blocks (texts.map .continuation) = []
  | [] => rfl
  | _ :: texts => blocks_map_continuation texts

/-- A part of a definition that can stand on a line of its own. -/
structure Part (s : Text) : Prop where
  trimmed : Trimmed s
  unbroken : Unbroken s
  accepts : Token.Accepts s

variable {name first : Text} {rest : List Text}

/-- Parts are read as a header and continuations. -/
theorem lines_of_laysOut {text : Text} (hheader : (Rule.mk name first).Listable)
    (hfirst : Trimmed first) (hrest : ∀ part ∈ rest, Part part ∧ part ≠ [])
    (h : LaysOut ((Rule.mk name first).listed :: rest) text) :
    Line.ofText text = .header name first :: rest.map .continuation := by
  have hunbroken : ∀ line ∈ (Rule.mk name first).listed :: rest, Unbroken line :=
    List.forall_mem_cons.2
      ⟨hheader.unbroken_listed, fun part hpart => (hrest part hpart).1.unbroken⟩
  have htrim : rest.map trim = rest :=
    (List.map_congr_left fun part hpart => (hrest part hpart).1.trimmed.trim_eq).trans
      (List.map_id' rest)
  have hkept : rest.filter (· ≠ []) = rest :=
    List.filter_eq_self.2 fun part hpart => by simpa using (hrest part hpart).2
  have hne : trim (Rule.mk name first).listed ≠ [] := by simp [Rule.trim_listed]
  have hclassify := hheader.classify_listed
  rw [hfirst.trim_eq] at hclassify
  rw [Line.ofText_eq_map_content, h.content_eq hunbroken, List.map_cons, htrim,
    List.filter_cons_of_pos (by simpa using hne), hkept, List.map_cons, hclassify]
  exact congrArg _ (List.map_congr_left fun part hpart =>
    Line.classify_of_accepts (hrest part hpart).1.accepts)

/-- The parts, joined with single spaces, are the trimmed parts of what they are joined to. -/
theorem map_trim_parts (hparts : ∀ part ∈ first :: rest, Part part) :
    (first :: rest.map (' ' :: ·)).map trim = first :: rest := by
  obtain ⟨hfirst, hrest⟩ := List.forall_mem_cons.1 hparts
  have hblank : isBlank ' ' = true := by decide
  rw [List.map_cons, hfirst.trimmed.trim_eq, List.map_map]
  refine congrArg _ ((List.map_congr_left fun part hpart => ?_).trans (List.map_id' rest))
  exact (trim_cons_of_isBlank hblank part).trans (hrest part hpart).trimmed.trim_eq

/-- However a definition is cut into parts between tokens and laid out over lines, it is read as
the parts joined with single spaces, no part is taken for a header, and the significant tokens are
those of the parts, just as if they stood on one line with any blanks between them. -/
theorem ofText_layout {text : Text} (hname : name ≠ []) (hclosing : '>' ∉ name)
    (hbroken : Unbroken name) (hparts : ∀ part ∈ first :: rest, Part part)
    (hrest : ∀ part ∈ rest, part ≠ [])
    (h : LaysOut ((Rule.mk name first).listed :: rest) text) :
    Grammar.ofText text = .ok ⟨[⟨name, first ++ rest.flatMap (' ' :: ·)⟩]⟩ ∧
      (∀ part ∈ rest, Line.classify part = .continuation part) ∧
      Token.Accepts (first ++ rest.flatMap (' ' :: ·)) ∧
      Token.significant (first ++ rest.flatMap (' ' :: ·)) =
        (first :: rest).flatMap Token.significant ∧
      ∀ pieces : List Text, pieces.map trim = first :: rest →
        Token.significant pieces.flatten =
          Token.significant (first ++ rest.flatMap (' ' :: ·)) := by
  obtain ⟨hfirst, hothers⟩ := List.forall_mem_cons.1 hparts
  have haccepts : ∀ pieces : List Text, pieces.map trim = first :: rest →
      ∀ piece ∈ pieces, Token.Accepts (trim piece) := by
    intro pieces hpieces piece hpiece
    exact (hparts _ (hpieces ▸ List.mem_map_of_mem hpiece)).accepts
  have hjoined := map_trim_parts hparts
  have hflatten : (first :: rest.map (' ' :: ·)).flatten = first ++ rest.flatMap (' ' :: ·) := by
    rw [List.flatten_cons, List.flatMap_def]
  obtain ⟨hdefinition, hsignificant⟩ := Token.significant_flatten (haccepts _ hjoined)
  rw [hflatten] at hdefinition hsignificant
  rw [hjoined] at hsignificant
  refine ⟨?_, fun part hpart => Line.classify_of_accepts (hothers part hpart).accepts,
    hdefinition, hsignificant, fun pieces hpieces => ?_⟩
  · have hheader : (Rule.mk name first).Listable :=
      ⟨hname, hclosing, hbroken, hfirst.unbroken, hfirst.accepts⟩
    have hlines := lines_of_laysOut hheader hfirst.trimmed
      (fun part hpart => ⟨hothers part hpart, hrest part hpart⟩) h
    have hrules : blockRules (Line.ofText text) =
        [⟨name, first ++ rest.flatMap (' ' :: ·)⟩] := by
      rw [hlines, blockRules, blocks, leading_map_continuation, blocks_map_continuation]
      rfl
    refine Grammar.ofText_eq_ok_iff.2 ⟨?_, ?_, ?_, hrules.symm⟩
    · rw [hlines]
      exact Line.startsWithHeader_header name first _
    · rw [← map_name_blockRules, hrules]
      exact List.nodup_singleton name
    · rw [hrules]
      simpa using hdefinition
  · rw [(Token.significant_flatten (haccepts pieces hpieces)).2, hpieces, hsignificant]

/-- An empty first part, signs within quotes, a blank line, blanks that break no line, and every
kind of break. The parts need not be apart to begin with. -/
theorem ofText_layout_of_signs :
    let name := "n ::=".toList
    let one := "<a> | '::='".toList
    let two := "'<b> ::='|\"\"".toList
    let text := "\t<n ::=> ::= \u0085\r\n \u2028\n  <a> | '::='\r\u3000'<b> ::='|\"\"".toList
    let definition := " <a> | '::=' '<b> ::='|\"\"".toList
    (name ≠ [] ∧ '>' ∉ name ∧ Unbroken name ∧ (∀ part ∈ [[], one, two], Part part) ∧
      (∀ part ∈ [one, two], part ≠ []) ∧
      LaysOut [(Rule.mk name []).listed, one, two] text) ∧
    Grammar.ofText text = .ok ⟨[⟨name, definition⟩]⟩ ∧
      (∀ part ∈ [one, two], Line.classify part = .continuation part) ∧
      Token.significant definition = [(.nonterminal, some "<a>".toList),
        (.alternation, some ['|']), (.singleQuoted, some "'::='".toList),
        (.singleQuoted, some "'<b> ::='".toList), (.alternation, some ['|']),
        (.doubleQuoted, some "\"\"".toList)] ∧
      Token.significant (one ++ two) = Token.significant definition := by
  intro name one two text definition
  have hname : Unbroken name := by decide
  have hfirst : Part [] := ⟨by decide, by decide, _, by cbv⟩
  have hpartOne : Part "<a> | '::='".toList := ⟨by decide, by decide, _, by cbv⟩
  have hpartTwo : Part "'<b> ::='|\"\"".toList := ⟨by decide, by decide, _, by cbv⟩
  have hparts : ∀ part ∈ [[], one, two], Part part := by
    simpa only [List.forall_mem_cons] using ⟨hfirst, hpartOne, hpartTwo, List.forall_mem_nil _⟩
  have hrest : ∀ part ∈ [one, two], part ≠ [] := by decide
  have hheader : LaysOut [(Rule.mk name []).listed]
      ("\t".toList ++ ((Rule.mk name []).listed ++ "\u0085".toList)) :=
    .line (by decide) (by decide)
  have hblank : LaysOut [] " \u2028".toList := .blank (by decide)
  have hone : LaysOut [one] ("  ".toList ++ (one ++ [])) := .line (by decide) (by decide)
  have htwo : LaysOut [two] ("\u3000".toList ++ (two ++ [])) := .line (by decide) (by decide)
  have hcrlf : "\r\n".toList ∈ breaks := by decide
  have hfeed : "\n".toList ∈ breaks := by decide
  have hreturn : "\r".toList ∈ breaks := by decide
  have hlines : LaysOut [(Rule.mk name []).listed, one, two] text :=
    .append hheader hcrlf (.append hblank hfeed (.append hone hreturn htwo))
  have htokens : [[], "<a> | '::='".toList, "'<b> ::='|\"\"".toList].flatMap Token.significant =
      [(.nonterminal, some "<a>".toList), (.alternation, some ['|']),
        (.singleQuoted, some "'::='".toList), (.singleQuoted, some "'<b> ::='".toList),
        (.alternation, some ['|']), (.doubleQuoted, some "\"\"".toList)] := by cbv
  obtain ⟨hread, hclassify, -, hsignificant, hpieces⟩ :=
    ofText_layout (by decide) (by decide) hname hparts hrest hlines
  refine ⟨⟨by decide, by decide, hname, hparts, hrest, hlines⟩, hread, hclassify, ?_, ?_⟩
  · exact hsignificant.trans htokens
  · exact hpieces [[], one, two] (by decide)

end Rulebook
