import Rulebook.Proofs.Headers
import Rulebook.Proofs.Outcome

/-!
# Grammars written as lines

A grammar can be listed if its names are taken once and can stand in angle brackets, and if its
definitions are accepted and have no breaks (`Grammar.Listable`). Its listing has one line for
each rule, and reading it gives the rules back, with their definitions trimmed
(`ofText_listing`). Every grammar that is read from a text or from files can be listed
(`listable_of_ofEvents`).
-/

namespace Rulebook

open Text Event

/-! ## Trimmed definitions -/

namespace Token

/-- A piece that is no run of blanks ends with a character that is no blank. -/
theorem Shape.exists_last {kind : Kind} {s : Text} (h : Shape kind s)
    (hkind : kind ≠ .whitespace) : ∃ front last, s = front ++ [last] ∧ isBlank last = false := by
  cases kind with
  | whitespace => exact absurd rfl hkind
  | nonterminal =>
    obtain ⟨name, -, rfl, -⟩ := h
    exact ⟨'<' :: name, '>', rfl, by decide⟩
  | doubleQuoted =>
    obtain ⟨body, rfl, -⟩ := h
    exact ⟨'"' :: body, '"', rfl, by decide⟩
  | singleQuoted =>
    obtain ⟨body, rfl, -⟩ := h
    exact ⟨'\'' :: body, '\'', rfl, by decide⟩
  | alternation =>
    obtain rfl : s = ['|'] := h
    exact ⟨[], '|', rfl, by decide⟩

theorem accepts_trimStart {s : Text} (h : Accepts s) : Accepts (trimStart s) := by
  rw [accepts_iff_unread, scan_trimStart]
  exact accepts_iff_unread.1 h

/-- The blanks at the end of a text that is accepted are pieces of their own. -/
theorem accepts_trimEnd {s : Text} (h : Accepts s) : Accepts (trimEnd s) := by
  obtain ⟨pieces, rfl, hpieces⟩ := accepts_iff.1 h
  clear h
  induction pieces using List.reverseRecOn with
  | nil => exact accepts_iff.2 ⟨[], rfl, by simp⟩
  | append_singleton pieces p ih =>
    obtain ⟨kind, hp⟩ := hpieces p (by simp)
    have hflat : (pieces ++ [p]).flatten = pieces.flatten ++ p := by simp
    by_cases hkind : kind = .whitespace
    · subst hkind
      rw [hflat, trimEnd_append_of_isBlank hp.2]
      exact ih fun q hq => hpieces q (List.mem_append_left _ hq)
    · obtain ⟨front, last, rfl, hlast⟩ := hp.exists_last hkind
      have hend : trimEnd (pieces.flatten ++ (front ++ [last])) =
          pieces.flatten ++ (front ++ [last]) := by
        rw [← List.append_assoc, trimEnd_append hlast]
        rfl
      rw [hflat, hend, ← hflat]
      exact accepts_iff.2 ⟨_, rfl, hpieces⟩

/-- A definition that is accepted is accepted without the blanks around it. -/
theorem accepts_trim {s : Text} (h : Accepts s) : Accepts (trim s) :=
  accepts_trimEnd (accepts_trimStart h)

end Token

/-! ## Listings -/

namespace Rule

/-- The rule as one line. -/
def listed (r : Rule) : Text :=
  '<' :: (r.name ++ '>' :: ' ' :: (Line.definedAs ++ ' ' :: r.definition))

/-- The rule with its definition trimmed. -/
def trimmed (r : Rule) : Rule := { r with definition := trim r.definition }

/-- A rule that can be written as one line. -/
structure Listable (r : Rule) : Prop where
  name_ne_nil : r.name ≠ []
  closing_not_mem : '>' ∉ r.name
  unbroken_name : Unbroken r.name
  unbroken_definition : Unbroken r.definition
  accepts : Token.Accepts r.definition

theorem Listable.trimmed {r : Rule} (h : r.Listable) : r.trimmed.Listable :=
  ⟨h.name_ne_nil, h.closing_not_mem, h.unbroken_name,
    h.unbroken_definition.of_subset fun _ hc => mem_of_mem_trim hc, Token.accepts_trim h.accepts⟩

@[simp] theorem trimmed_trimmed (r : Rule) : r.trimmed.trimmed = r.trimmed := by
  simp [trimmed, trim_trim]

theorem Listable.unbroken_listed {r : Rule} (h : r.Listable) : Unbroken r.listed := by
  intro c hc
  simp only [listed, Line.definedAs, List.mem_cons, List.mem_append, List.not_mem_nil,
    or_false] at hc
  rcases hc with rfl | hc | rfl | rfl | (rfl | rfl | rfl) | rfl | hc
  case inr.inl => exact h.unbroken_name c hc
  case inr.inr.inr.inr.inr.inr => exact h.unbroken_definition c hc
  all_goals decide

/-- Trimming the line takes the blanks off the definition only, at its end. -/
theorem trim_listed (r : Rule) : trim r.listed =
    '<' :: (r.name ++ '>' :: ([' '] ++ (Line.definedAs ++ trimEnd (' ' :: r.definition)))) := by
  have hstart : trimStart r.listed = r.listed := by
    refine trimStart_eq_self_iff.2 fun c hc => ?_
    obtain rfl : '<' = c := by simpa [listed] using hc
    decide
  have hsplit : ∀ rest : Text, '<' :: (r.name ++ '>' :: ' ' :: (Line.definedAs ++ rest)) =
      ('<' :: (r.name ++ '>' :: ' ' :: [':', ':'])) ++ '=' :: rest := by
    intro rest
    simp [Line.definedAs]
  rw [trim, hstart, listed, hsplit, trimEnd_append (by decide), ← hsplit]
  rfl

/-- The line of a rule that can be listed is a header with its name and its definition,
trimmed. -/
theorem Listable.classify_listed {r : Rule} (h : r.Listable) :
    Line.classify (trim r.listed) = .header r.name (trim r.definition) := by
  have hblank : isBlank ' ' = true := by decide
  have hbody : Unbroken (trimStart (trimEnd (' ' :: r.definition))) := by
    rw [trimStart_trimEnd, ← trim, trim_cons_of_isBlank hblank]
    exact h.unbroken_definition.of_subset fun _ hc => mem_of_mem_trim hc
  have hheader : Line.header? (trim r.listed) = some (r.name, trimEnd (' ' :: r.definition)) := by
    refine Line.header?_eq_some_iff.2 ⟨h.name_ne_nil, h.closing_not_mem, ?_, [' '], ?_, ?_⟩
    · exact fun hbreak => (hbody '\n' hbreak).2 rfl
    · simpa using hblank
    · exact r.trim_listed
  refine Line.classify_eq_header_iff.2 ⟨_, hheader, ?_⟩
  rw [trim_trimEnd, trim_cons_of_isBlank hblank]

end Rule

namespace Grammar

/-- The rules as lines, each ended by a line feed. -/
def listing (g : Grammar) : Text := g.rules.flatMap fun r => r.listed ++ ['\n']

/-- The grammar with every definition trimmed. -/
def trimmed (g : Grammar) : Grammar := ⟨g.rules.map Rule.trimmed⟩

/-- A grammar that can be written with one line for each rule. -/
structure Listable (g : Grammar) : Prop where
  nodup_names : g.names.Nodup
  listable : ∀ r ∈ g.rules, r.Listable

theorem trimmed_trimmed (g : Grammar) : g.trimmed.trimmed = g.trimmed := by
  simp [trimmed]

theorem Listable.trimmed {g : Grammar} (h : g.Listable) : g.trimmed.Listable := by
  refine ⟨?_, ?_⟩
  · have hnames : g.trimmed.names = g.names := by
      simp only [names, Grammar.trimmed, List.map_map]
      rfl
    rw [hnames]
    exact h.nodup_names
  · intro r hr
    obtain ⟨q, hq, rfl⟩ := List.mem_map.1 hr
    exact (h.listable q hq).trimmed

/-! ## Reading a listing -/

theorem content_listing : ∀ {rules : List Rule}, (∀ r ∈ rules, r.Listable) →
    content (listing ⟨rules⟩) = rules.map fun r => trim r.listed
  | [], _ => rfl
  | r :: rules, h => by
    obtain ⟨hr, hrules⟩ := List.forall_mem_cons.1 h
    have hlisting : listing ⟨r :: rules⟩ = r.listed ++ '\n' :: listing ⟨rules⟩ := by
      simp [listing]
    have hne : trim r.listed ≠ [] := by simp [r.trim_listed]
    have ih := content_listing hrules
    rw [content] at ih ⊢
    rw [hlisting, lines_of_unbroken hr.unbroken_listed, List.map_cons, List.filter_cons_of_pos,
      ih, List.map_cons]
    simpa using hne

/-- The lines of a listing are headers, one for each rule. -/
theorem Listable.lines_listing {g : Grammar} (h : g.Listable) :
    Line.ofText g.listing = g.trimmed.rules.map fun r => .header r.name r.definition := by
  rw [Line.ofText_eq_map_content, content_listing h.listable, Grammar.trimmed, List.map_map,
    List.map_map]
  exact List.map_congr_left fun r hr => (h.listable r hr).classify_listed

end Grammar

/-- Headers without continuations are rules. -/
theorem blockRules_map_header : ∀ rules : List Rule,
    blockRules (rules.map fun r => .header r.name r.definition) = rules
  | [] => rfl
  | r :: rules => by
    have hleading : leading (rules.map fun r => .header r.name r.definition) = [] := by
      cases rules <;> rfl
    have ih := blockRules_map_header rules
    rw [blockRules] at ih ⊢
    rw [List.map_cons, blocks, hleading, List.map_cons, ih]
    simp [Block.rule]

/-- A listing is read back as the grammar with its definitions trimmed. -/
theorem Grammar.Listable.ofText_listing_eq {g : Grammar} (h : g.Listable) :
    Grammar.ofText g.listing = .ok g.trimmed := by
  have hrules := blockRules_map_header g.trimmed.rules
  rw [Grammar.ofText_eq_ok_iff, h.lines_listing, hrules]
  refine ⟨?_, ?_, fun r hr => (h.trimmed.listable r hr).accepts, rfl⟩
  · cases g.trimmed.rules with
    | nil => simp
    | cons r rules => simp
  · rw [← map_name_blockRules, hrules]
    exact h.trimmed.nodup_names

/-! ## Grammars that are read -/

theorem Event.fits_of_mem_lines {sources : List (Except Error SourceFile)} {line : Line}
    (h : line ∈ lines (ofSources sources)) : line.Fits := by
  rw [lines, ofSources, List.filterMap_flatMap] at h
  obtain ⟨source, -, hline⟩ := List.mem_flatMap.1 h
  rw [← lines] at hline
  cases source with
  | error e => simp [ofSource, lines, line?] at hline
  | ok file =>
    rw [ofSource, lines_opened, lines_ofText] at hline
    exact Line.fits_of_mem_ofText hline

/-- What is read from lines without breaks can be listed. -/
theorem Grammar.listable_of_ofEvents {reset : Bool} {events : List Event} {g : Grammar}
    (hlines : ∀ line ∈ lines events, line.Fits) (h : ofEvents reset events = .ok g) :
    g.Listable := by
  obtain ⟨hclean, haccepts, hrules⟩ := ofEvents_eq_ok_iff.1 h
  obtain ⟨r, -, hholds⟩ := Reader.run_of_clean (Reader.holds_start reset) hclean
  refine ⟨?_, fun rule hrule => ?_⟩
  · rw [names, hrules, map_name_blockRules]
    exact hholds.nodup
  · rw [hrules] at hrule
    obtain ⟨hname, hclosing, hbroken, hdefinition⟩ := fits_of_mem_blockRules hlines hrule
    exact ⟨hname, hclosing, hbroken, hdefinition, haccepts rule hrule⟩

theorem Grammar.listable_of_ofText {text : Text} {g : Grammar} (h : ofText text = .ok g) :
    g.Listable := by
  rw [ofText_eq_ofEvents true] at h
  refine listable_of_ofEvents (fun line hline => ?_) h
  rw [lines_ofText] at hline
  exact Line.fits_of_mem_ofText hline

theorem Grammar.listable_of_ofSources {parsing : ParsingSettings}
    {sources : List (Except Error SourceFile)} {g : Grammar}
    (h : ofSources parsing sources = .ok g) : g.Listable := by
  rw [ofSources_eq_ofEvents] at h
  exact listable_of_ofEvents (fun _ hline => Event.fits_of_mem_lines hline) h

/-- A grammar that is loaded can be listed. -/
theorem Grammar.listable_of_load {t : Tree} {source : SourceSettings} {parsing : ParsingSettings}
    {root : Path} {g : Grammar} (h : load t source parsing root = .ok g) : g.Listable := by
  obtain ⟨sources, -, hsources⟩ := exists_collect_of_load h
  exact listable_of_ofSources hsources

/-- Reading the listing of a grammar gives its rules in their order, with their definitions
trimmed, and listing and reading these once more changes nothing. What is read from a text or
loaded from a tree can be listed. -/
theorem ofText_listing :
    (∀ g : Grammar, g.Listable → Grammar.ofText g.listing = .ok g.trimmed ∧
      Grammar.ofText g.trimmed.listing = .ok g.trimmed) ∧
    (∀ (text : Text) (g : Grammar), Grammar.ofText text = .ok g → g.Listable) ∧
    ∀ (t : Tree) (source : SourceSettings) (parsing : ParsingSettings) (root : Path)
      (g : Grammar), Grammar.load t source parsing root = .ok g → g.Listable := by
  refine ⟨fun g h => ⟨h.ofText_listing_eq, ?_⟩, ?_, ?_⟩
  · have htwice := h.trimmed.ofText_listing_eq
    rwa [Grammar.trimmed_trimmed] at htwice
  · exact fun text g h => Grammar.listable_of_ofText h
  · exact fun t source parsing root g h => Grammar.listable_of_load h

/-- A name that looks like a sign, a definition with a sign in quotes and a line separator at its
end, a rule without a definition, and a rule that is continued below an empty header. -/
theorem ofText_listing_of_signs :
    let g : Grammar := ⟨[⟨"::= \"<x".toList, " '::='\u2028| \"it's\"\u2028".toList⟩,
      ⟨" ".toList, []⟩]⟩
    let read : Grammar := ⟨[⟨"a".toList, " 'x'".toList⟩]⟩
    let t : Tree := ⟨[([.of "g"], .directory),
      ([.of "a.bnf", .of "g"], .file "<a> ::=\n'x'".toUTF8)], []⟩
    g.Listable ∧
      g.listing = "<::= \"<x> ::=  '::='\u2028| \"it's\"\u2028\n< > ::= \n".toList ∧
      Grammar.ofText g.listing = .ok ⟨[⟨"::= \"<x".toList, "'::='\u2028| \"it's\"".toList⟩,
        ⟨" ".toList, []⟩]⟩ ∧
      Grammar.ofText g.trimmed.listing = .ok g.trimmed ∧
      Grammar.ofText "<a> ::=\n'x'".toList = .ok read ∧ read.Listable ∧
      Grammar.load t {} {} (.of "g") = .ok read ∧ read.Listable := by
  intro g read t
  have hg : g.Listable := by
    refine ⟨by decide, fun r hr => ?_⟩
    simp only [g, List.mem_cons, List.not_mem_nil, or_false] at hr
    rcases hr with rfl | rfl
    · exact ⟨by decide, by decide, by decide, by decide, _, by cbv⟩
    · exact ⟨by decide, by decide, by decide, by decide, _, by cbv⟩
  have htext : Grammar.ofText "<a> ::=\n'x'".toList = .ok read := by cbv
  have hload : Grammar.load t {} {} (.of "g") = .ok read := by
    simp only [t, read]
    cbv
  obtain ⟨hlisting, hread, hloaded⟩ := ofText_listing
  refine ⟨hg, by decide, ?_, (hlisting g hg).2, htext, hread _ _ htext, hload,
    hloaded _ _ _ _ _ hload⟩
  rw [(hlisting g hg).1]
  cbv

end Rulebook
