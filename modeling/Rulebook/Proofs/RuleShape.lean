import Rulebook.Proofs.FileMerge
import Rulebook.Proofs.Listing

/-!
# What rules that are read look like

Lines are trimmed and those that are blank are left out, so what they say has no blank at either end
(`Line.trimmed_of_mem_ofText`). The definition of a rule is put together from these texts with
single spaces between them : it never ends with a blank, and starts with one only if the header
says nothing and a continuation comes after it (`Block.head_rule`). With what names and definitions
are made of and with the check behind the last line, this is what every rule is like that a text or
files give (`read_rules_shaped`).
-/

namespace Rulebook

open Text Event

/-! ## Lines and blocks -/

namespace Line

/-- What the line says has no blank at either end, and a continuation says something. -/
def Trimmed : Line → Prop
  | header _ definition => Text.Trimmed definition
  | continuation text => text ≠ [] ∧ Text.Trimmed text

theorem trimmed_classify {text : Text} (hne : text ≠ []) (h : Text.Trimmed text) :
    (classify text).Trimmed := by
  cases hclass : classify text with
  | header name definition =>
    obtain ⟨body, -, rfl⟩ := classify_eq_header_iff.1 hclass
    exact trimmed_trim body
  | continuation shown =>
    rw [eq_of_classify_eq_continuation hclass]
    exact ⟨hne, h⟩

theorem trimmed_of_mem_ofText {text : Text} {line : Line} (h : line ∈ ofText text) :
    line.Trimmed := by
  rw [ofText_eq_map_content] at h
  obtain ⟨shown, hshown, rfl⟩ := List.mem_map.1 h
  obtain ⟨hne, raw, -, rfl⟩ := mem_content_iff.1 hshown
  exact trimmed_classify hne (trimmed_trim raw)

end Line

namespace Block

variable {b : Block}

/-- The definition ends as its last part does. -/
theorem last_rule (h : ∀ line ∈ b.lines, line.Trimmed) :
    ∀ c ∈ b.rule.definition.getLast?, isBlank c = false := by
  obtain ⟨hdefinition, hcontinuations⟩ := List.forall_mem_cons.1 h
  rcases List.eq_nil_or_concat b.continuations with hnil | ⟨texts, text, hconcat⟩
  · intro c hc
    refine hdefinition.last c ?_
    simpa [rule, hnil] using hc
  · have htext : Line.continuation text ∈ b.continuations.map .continuation := by simp [hconcat]
    obtain ⟨hne, htrimmed⟩ := hcontinuations _ htext
    have hrule : b.rule.definition =
        (b.definition ++ texts.flatMap (' ' :: ·) ++ [' ']) ++ text := by
      simp [rule, hconcat]
    rw [hrule, List.getLast?_append_of_ne_nil _ hne]
    exact htrimmed.last

/-- The definition starts with a blank only where nothing stands before the space in front of the
first continuation. -/
theorem head_rule (h : ∀ line ∈ b.lines, line.Trimmed) :
    (∀ c ∈ b.rule.definition.head?, isBlank c = false) ∨
      b.definition = [] ∧ ∃ c rest, b.rule.definition = ' ' :: c :: rest ∧ isBlank c = false := by
  obtain ⟨hdefinition, hcontinuations⟩ := List.forall_mem_cons.1 h
  cases hd : b.definition with
  | cons c s =>
    left
    intro c' hc'
    refine hdefinition.head c' ?_
    simpa [rule, hd] using hc'
  | nil =>
    cases hc : b.continuations with
    | nil => exact Or.inl (by simp [rule, hd, hc])
    | cons text texts =>
      have htext : Line.continuation text ∈ b.continuations.map .continuation := by simp [hc]
      obtain ⟨hne, htrimmed⟩ := hcontinuations _ htext
      obtain ⟨c, s, rfl⟩ := List.exists_cons_of_ne_nil hne
      refine Or.inr ⟨rfl, c, s ++ texts.flatMap (' ' :: ·), ?_, htrimmed.head c rfl⟩
      simp [rule, hd, hc]

end Block

/-- A header is what a block starts with. -/
theorem header_mem_iff {name definition : Text} : ∀ {ls : List Line},
    .header name definition ∈ ls ↔ ∃ b ∈ blocks ls, b.name = name ∧ b.definition = definition
  | [] => by simp [blocks]
  | .header name' definition' :: ls => by
    rw [List.mem_cons, header_mem_iff, blocks, List.exists_mem_cons_iff]
    simp [eq_comm]
  | .continuation _ :: ls => by
    rw [List.mem_cons, header_mem_iff, blocks]
    simp

/-- If no name is taken twice, the header under a name is the only one. -/
theorem header_unique {lines : List Line} (h : (Line.names lines).Nodup)
    {name definition other : Text} (hdefinition : .header name definition ∈ lines)
    (hother : .header name other ∈ lines) : other = definition := by
  obtain ⟨b, hb, hname, rfl⟩ := header_mem_iff.1 hdefinition
  obtain ⟨b', hb', rfl, rfl⟩ := header_mem_iff.1 hother
  rw [← map_name_blocks] at h
  rw [List.inj_on_of_nodup_map h hb' hb hname.symm]

/-! ## Rules -/

/-- What a rule that is read from lines looks like. -/
structure Rule.Shaped (lines : List Line) (r : Rule) : Prop extends r.Listable where
  /-- The definition does not end with a blank. -/
  last : ∀ c ∈ r.definition.getLast?, isBlank c = false
  /-- The rule has one header. Only if that says nothing, the definition can start with a blank,
  which is then a single space. -/
  header : ∃ definition, (∀ other, .header r.name other ∈ lines ↔ other = definition) ∧
    ((∀ c ∈ r.definition.head?, isBlank c = false) ∨
      definition = [] ∧ ∃ c rest, r.definition = ' ' :: c :: rest ∧ isBlank c = false)
  check : Grammar.checkDefinition r.name r.definition = .ok ()

/-- Rules that are read from events pass the check and have the shape of the lines. -/
theorem Grammar.shaped_of_ofEvents {reset : Bool} {events : List Event} {g : Grammar}
    (hfits : ∀ line ∈ lines events, line.Fits) (htrimmed : ∀ line ∈ lines events, line.Trimmed)
    (h : ofEvents reset events = .ok g) :
    g.check = .ok () ∧ ∀ r ∈ g.rules, r.Shaped (lines events) := by
  obtain ⟨hnodup, hlistable⟩ := listable_of_ofEvents hfits h
  obtain ⟨-, haccepts, hrules⟩ := ofEvents_eq_ok_iff.1 h
  rw [names, hrules, map_name_blockRules] at hnodup
  refine ⟨check_eq_ok_iff.2 (hrules ▸ haccepts), fun r hr => ?_⟩
  have hr' := hr
  rw [hrules] at hr'
  obtain ⟨b, hb, rfl⟩ := List.mem_map.1 hr'
  have hlines : ∀ line ∈ b.lines, line.Trimmed := fun line hline =>
    htrimmed line (lines_subset_of_mem_blocks hb hline)
  have hheader : .header b.name b.definition ∈ lines events := header_mem_iff.2 ⟨b, hb, rfl, rfl⟩
  refine ⟨hlistable _ hr, Block.last_rule hlines, ⟨b.definition, fun other => ⟨?_, ?_⟩, ?_⟩, ?_⟩
  · exact header_unique hnodup hheader
  · rintro rfl
    exact hheader
  · exact Block.head_rule hlines
  · exact checkDefinition_of_accepts (hlistable _ hr).accepts b.name

/-! ## Texts and files -/

theorem Grammar.shaped_of_ofText {text : Text} {g : Grammar} (h : ofText text = .ok g) :
    g.check = .ok () ∧ ∀ r ∈ g.rules, r.Shaped (Line.ofText text) := by
  have hlines := lines_ofText none text
  rw [ofText_eq_ofEvents true] at h
  rw [← hlines]
  refine shaped_of_ofEvents (fun line hline => ?_) (fun line hline => ?_) h
  · exact Line.fits_of_mem_ofText (hlines ▸ hline)
  · exact Line.trimmed_of_mem_ofText (hlines ▸ hline)

/-- Where nothing is an offence, every file could be had. -/
theorem Event.exists_files_of_clean {reset : Bool} : ∀ {sources : List (Except Error SourceFile)}
    {before : List Event}, Clean reset before (ofSources sources) →
    ∃ files : List SourceFile, sources = files.map .ok
  | [], _, _ => ⟨[], rfl⟩
  | .error e :: sources, before, h => by
    have hfailed : offence? reset before (failed e) = none := (clean_cons.1 h).1
    simp [offence?] at hfailed
  | .ok file :: sources, before, h => by
    rw [ofSources_cons_ok, clean_cons, clean_append] at h
    obtain ⟨files, rfl⟩ := exists_files_of_clean h.2.2
    exact ⟨file :: files, rfl⟩

/-- Rules that are read from files pass the check and have the shape of the lines of all files. -/
theorem Grammar.shaped_of_ofSources {parsing : ParsingSettings}
    {sources : List (Except Error SourceFile)} {g : Grammar}
    (h : ofSources parsing sources = .ok g) : ∃ files : List SourceFile,
      sources = files.map .ok ∧ g.check = .ok () ∧
      ∀ r ∈ g.rules, r.Shaped ((files.map SourceFile.text).flatMap Line.ofText) := by
  rw [ofSources_eq_ofEvents] at h
  obtain ⟨files, rfl⟩ := exists_files_of_clean (ofEvents_eq_ok_iff.1 h).1
  refine ⟨files, rfl, ?_⟩
  have hlines := lines_ofSources files
  rw [← hlines]
  refine shaped_of_ofEvents (fun line hline => fits_of_mem_lines hline) (fun line hline => ?_) h
  rw [hlines] at hline
  obtain ⟨text, -, hline⟩ := List.mem_flatMap.1 hline
  exact Line.trimmed_of_mem_ofText hline

/-- A grammar that a text gives, or that files give that are loaded from a tree, passes the check
once more, and all its rules have the shape of rules that are read from these lines. -/
theorem read_rules_shaped :
    (∀ (text : Text) (g : Grammar), Grammar.ofText text = .ok g →
      g.check = .ok () ∧ ∀ r ∈ g.rules, r.Shaped (Line.ofText text)) ∧
    ∀ (t : Tree) (source : SourceSettings) (parsing : ParsingSettings) (root : Path)
      (g : Grammar), Grammar.load t source parsing root = .ok g →
      ∃ files : List SourceFile, SourceFile.collect t source root = .ok (files.map .ok) ∧
        g.check = .ok () ∧
        ∀ r ∈ g.rules, r.Shaped ((files.map SourceFile.text).flatMap Line.ofText) := by
  refine ⟨fun text g => Grammar.shaped_of_ofText, fun t source parsing root g h => ?_⟩
  obtain ⟨sources, hcollect, hsources⟩ := Grammar.exists_collect_of_load h
  obtain ⟨files, rfl, hcheck, hrules⟩ := Grammar.shaped_of_ofSources hsources
  exact ⟨files, hcollect, hcheck, hrules⟩

/-- Blanks that break no line, a continuation below an empty header, which starts the definition
with a space, and one in the next file, which is read with the cursor kept. -/
theorem read_rules_shaped_below_empty_header :
    let text := "<a> ::=\u2028\n\u000b| '\u2028'\u0085\r\r\n <b>\n<b>::= ' '".toList
    let g : Grammar := ⟨[⟨"a".toList, " | '\u2028' <b>".toList⟩, ⟨"b".toList, "' '".toList⟩]⟩
    let t : Tree := ⟨[([.of "g"], .directory),
      ([.of "a.bnf", .of "g"], .file "<a> ::=\n| 'x'".toUTF8),
      ([.of "b.bnf", .of "g"], .file "\t<b>\r<b> ::= \n".toUTF8)], []⟩
    let h : Grammar := ⟨[⟨"a".toList, " | 'x' <b>".toList⟩, ⟨"b".toList, []⟩]⟩
    Grammar.ofText text = .ok g ∧ g.check = .ok () ∧
      (∀ r ∈ g.rules, r.Shaped (Line.ofText text)) ∧
      Grammar.load t {} ⟨false⟩ (.of "g") = .ok h ∧ ∃ files : List SourceFile,
        SourceFile.collect t {} (.of "g") = .ok (files.map .ok) ∧ h.check = .ok () ∧
        ∀ r ∈ h.rules, r.Shaped ((files.map SourceFile.text).flatMap Line.ofText) := by
  intro text g t h
  have htext : Grammar.ofText text = .ok g := by
    simp only [text, g]
    cbv
  have hload : Grammar.load t {} ⟨false⟩ (.of "g") = .ok h := by
    simp only [t, h]
    cbv
  obtain ⟨hcheck, hrules⟩ := read_rules_shaped.1 text g htext
  exact ⟨htext, hcheck, hrules, hload, read_rules_shaped.2 t {} ⟨false⟩ _ h hload⟩

end Rulebook
