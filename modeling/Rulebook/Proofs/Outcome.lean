import Mathlib
import Rulebook.Proofs.Runs

/-!
# What reading ends with

Reading files or a text is one run of events followed by one check (`Grammar.ofEvents`). It
gives a grammar if and only if there is no offence and every definition is accepted, and the
grammar then has the rules of the blocks (`ofEvents_eq_ok_iff`); otherwise it gives the first
offence or, only if there is none, the first definition that is rejected
(`ofEvents_eq_error_iff`). `load_outcome` says so of files in the order of the walk,
`ofText_blocks` of one text read block by block.
-/

namespace Rulebook

open Event

namespace Grammar

/-! ## A run and a check -/

/-- The grammar of a run of events, checked. -/
def ofEvents (reset : Bool) (events : List Event) : Except Error Grammar := do
  let r ← Reader.start.run reset events
  r.grammar.check
  return r.grammar

theorem ofText_eq_ofEvents (reset : Bool) (text : Text) :
    ofText text = ofEvents reset (Event.ofText none text) := by
  rw [ofText, ofEvents, Reader.run_ofText]

theorem ofSources_eq_ofEvents (parsing : ParsingSettings)
    (sources : List (Except Error SourceFile)) :
    ofSources parsing sources =
      ofEvents parsing.resetCursorPerFile (Event.ofSources sources) := by
  rw [ofSources, ofEvents, Reader.run_ofSources]

/-- Clean events make the rules of their blocks, and only a definition can be refused. -/
theorem ofEvents_of_clean {reset : Bool} {events : List Event} (h : Clean reset [] events) :
    ofEvents reset events = (check ⟨blockRules (lines events)⟩).map
      fun _ => ⟨blockRules (lines events)⟩ := by
  obtain ⟨⟨⟨rules⟩, cursor⟩, hrun, hholds⟩ := Reader.run_of_clean (Reader.holds_start reset) h
  obtain rfl : rules = blockRules (lines events) := hholds.rules
  rw [ofEvents, hrun]
  show (check _ >>= fun _ => _) = _
  cases check ⟨blockRules (lines events)⟩ <;> rfl

/-- The first event that offends gives the error. -/
theorem ofEvents_of_firstOffence {reset : Bool} {events : List Event} {e : Error}
    (h : FirstOffence reset events e) : ofEvents reset events = .error e := by
  rw [ofEvents, Reader.run_of_firstOffence h]
  rfl

/-- There is a first offence exactly if the events are not clean. -/
theorem not_clean_of_firstOffence {reset : Bool} {events : List Event} {e : Error}
    (h : FirstOffence reset events e) : ¬Clean reset [] events := by
  obtain ⟨done, event, rest, heq, -, hoff⟩ := h
  intro hclean
  have := hclean done event rest heq
  rw [List.nil_append, hoff] at this
  simp at this

/-- Reading gives a grammar if and only if there is no offence and every definition is
accepted, and the rules are then those of the blocks. -/
theorem ofEvents_eq_ok_iff {reset : Bool} {events : List Event} {g : Grammar} :
    ofEvents reset events = .ok g ↔ Clean reset [] events ∧
      (∀ r ∈ blockRules (lines events), Token.Accepts r.definition) ∧
      g.rules = blockRules (lines events) := by
  rcases clean_or_firstOffence reset events with hclean | ⟨e, he⟩
  · rw [ofEvents_of_clean hclean, ← check_eq_ok_iff]
    obtain ⟨rules⟩ := g
    cases check ⟨blockRules (lines events)⟩ <;> simp [Except.map, hclean, eq_comm]
  · simp [ofEvents_of_firstOffence he, not_clean_of_firstOffence he]

/-- An error is the first offence, or else that of the first definition that is rejected. -/
theorem ofEvents_eq_error_iff {reset : Bool} {events : List Event} {e : Error} :
    ofEvents reset events = .error e ↔ FirstOffence reset events e ∨
      Clean reset [] events ∧ FirstRejected (blockRules (lines events)) e := by
  rcases clean_or_firstOffence reset events with hclean | ⟨e', he'⟩
  · have hno : ¬FirstOffence reset events e := fun h => not_clean_of_firstOffence h hclean
    have hcheck := @check_eq_error_iff ⟨blockRules (lines events)⟩ e
    rw [ofEvents_of_clean hclean, ← hcheck]
    cases check ⟨blockRules (lines events)⟩ <;> simp [Except.map, hclean, hno]
  · rw [ofEvents_of_firstOffence he', ← Reader.run_eq_error_iff, Reader.run_of_firstOffence he']
    simp [not_clean_of_firstOffence he']

end Grammar

/-! ## Files in the order of the walk -/

/-- What the walk gives for a file : the file, or why it or its directory could not be read. -/
def SourceFile.IsItem : Except Error SourceFile → Prop
  | .ok _ => True
  | .error (.fileRead _ _) => True
  | .error (.walk _ _) => True
  | .error _ => False

/-- What is collected are files, or failures to read them. -/
theorem SourceFile.isItem_of_mem_collect {t : Tree} {settings : SourceSettings} {root : Path}
    {sources : List (Except Error SourceFile)} (h : collect t settings root = .ok sources) :
    ∀ source ∈ sources, IsItem source := by
  unfold collect at h
  split at h
  · obtain rfl := Except.ok.inj h
    intro source hsource
    obtain ⟨found, -, hfound⟩ := List.mem_filterMap.1 hsource
    cases found with
    | failed path cause =>
      obtain rfl := Option.some.inj hfound
      trivial
    | entry path name =>
      simp only [ofFound, Option.ite_none_right_eq_some, Option.some.injEq] at hfound
      obtain ⟨-, rfl⟩ := hfound
      unfold read
      split <;> trivial
  · simp at h

/-- What reading source files ends with : the rules of their blocks, or the first offence, or,
where there is no offence, the first definition that is rejected. -/
structure Outcome (reset : Bool) (sources : List (Except Error SourceFile))
    (result : Except Error Grammar) : Prop where
  ok_iff : ∀ g, result = .ok g ↔ Clean reset [] (ofSources sources) ∧
    (∀ r ∈ blockRules (lines (ofSources sources)), Token.Accepts r.definition) ∧
    g.rules = blockRules (lines (ofSources sources))
  error_iff : ∀ e, result = .error e ↔ FirstOffence reset (ofSources sources) e ∨
    Clean reset [] (ofSources sources) ∧
      Grammar.FirstRejected (blockRules (lines (ofSources sources))) e
  clean_of_invalidSyntax : ∀ rule position remainder,
    result = .error (.invalidSyntax rule position remainder) → Clean reset [] (ofSources sources)

/-- Where only files can fail to be had, bad syntax is never an offence. -/
theorem offence?_ne_invalidSyntax {sources : List (Except Error SourceFile)}
    (h : ∀ source ∈ sources, SourceFile.IsItem source) {event : Event}
    (hevent : event ∈ ofSources sources) (reset : Bool) (before : List Event)
    (rule : Text) (position : Nat) (remainder : Text) :
    offence? reset before event ≠ some (.invalidSyntax rule position remainder) := by
  intro hoff
  cases event with
  | opened => simp [offence?] at hoff
  | line place text =>
    cases hclass : Line.classify text with
    | header name definition => simp [offence?_of_header hclass] at hoff
    | continuation shown => simp [offence?_of_continuation hclass] at hoff
  | failed error =>
    obtain rfl := Option.some.inj hoff
    obtain ⟨source, hsource, hmem⟩ := List.mem_flatMap.1 hevent
    have hitem := h source hsource
    cases source with
    | error e =>
      obtain rfl : Error.invalidSyntax rule position remainder = e := by
        simpa [ofSource] using hmem
      exact hitem
    | ok file =>
      rcases List.mem_cons.1 hmem with hmem | hmem
      · simp at hmem
      · obtain ⟨_, _, hline⟩ := exists_line_of_mem_ofText hmem
        simp at hline

/-- What reading sources comes to, whatever they hold. -/
theorem outcome_ofSources (parsing : ParsingSettings) {sources : List (Except Error SourceFile)}
    (h : ∀ source ∈ sources, SourceFile.IsItem source) :
    Outcome parsing.resetCursorPerFile sources (Grammar.ofSources parsing sources) := by
  rw [Grammar.ofSources_eq_ofEvents]
  refine ⟨fun g => Grammar.ofEvents_eq_ok_iff, fun e => Grammar.ofEvents_eq_error_iff,
    fun rule position remainder hresult => ?_⟩
  rcases Grammar.ofEvents_eq_error_iff.1 hresult with ⟨done, event, rest, heq, -, hoff⟩ | hclean
  · have hevent : event ∈ ofSources sources := by simp [heq]
    exact absurd hoff (offence?_ne_invalidSyntax h hevent _ _ _ _ _)
  · exact hclean.1

/-- Loading reads what is collected. -/
theorem Grammar.load_of_collect {t : Tree} {settings : SourceSettings} {root : Path}
    {sources : List (Except Error SourceFile)}
    (h : SourceFile.collect t settings root = .ok sources) (parsing : ParsingSettings) :
    load t settings parsing root = ofSources parsing sources := by
  rw [load, h]
  rfl

/-- What is loaded is read from what is collected. -/
theorem Grammar.exists_collect_of_load {t : Tree} {settings : SourceSettings}
    {parsing : ParsingSettings} {root : Path} {g : Grammar}
    (h : load t settings parsing root = .ok g) :
    ∃ sources, SourceFile.collect t settings root = .ok sources ∧
      ofSources parsing sources = .ok g := by
  cases hcollect : SourceFile.collect t settings root with
  | error e =>
    have herror : Except.error e = Except.ok g := by rwa [load, hcollect] at h
    cases herror
  | ok sources => exact ⟨sources, rfl, (load_of_collect hcollect parsing).symm.trans h⟩

/-- What loading ends with, for whatever the walk gives, and below any directory. -/
theorem load_outcome (parsing : ParsingSettings) :
    (∀ sources : List (Except Error SourceFile), (∀ source ∈ sources, SourceFile.IsItem source) →
      Outcome parsing.resetCursorPerFile sources (Grammar.ofSources parsing sources)) ∧
    ∀ (t : Tree) (settings : SourceSettings) (root : Path), t.isDirectory root = true →
      ∃ sources, SourceFile.collect t settings root = .ok sources ∧
        (∀ source ∈ sources, SourceFile.IsItem source) ∧
        Outcome parsing.resetCursorPerFile sources (Grammar.load t settings parsing root) := by
  refine ⟨fun sources h => outcome_ofSources parsing h, fun t settings root hroot => ?_⟩
  have hcollect : SourceFile.collect t settings root =
      .ok ((t.walk settings.followLinks root).filterMap (SourceFile.ofFound t settings)) :=
    if_pos hroot
  have hitems := SourceFile.isItem_of_mem_collect hcollect
  refine ⟨_, hcollect, hitems, ?_⟩
  rw [Grammar.load, hcollect]
  exact outcome_ofSources parsing hitems

/-- A continuation on the second line of a file, with the cursor reset, comes before a rule
that is given twice, a definition that is rejected and a file that cannot be read. -/
theorem load_outcome_orphan_first :
    let sources : List (Except Error SourceFile) :=
      [.ok ⟨.of "g/a.bnf", "<a> ::= $".toList⟩,
        .ok ⟨.of "g/b.bnf", "\n | 'x'\n<a> ::=".toList⟩,
        .error (.fileRead (.of "g/c.bnf") .notUtf8)]
    let t : Tree := ⟨[([.of "g"], .directory)], []⟩
    (∀ source ∈ sources, SourceFile.IsItem source) ∧
      Outcome true sources (.error (.orphanedContent "| 'x'".toList
        (some ⟨some (.of "g/b.bnf"), 2⟩))) ∧
      t.isDirectory (.of "g") = true ∧ ∃ sources,
        SourceFile.collect t {} (.of "g") = .ok sources ∧
        (∀ source ∈ sources, SourceFile.IsItem source) ∧
        Outcome true sources (Grammar.load t {} ⟨true⟩ (.of "g")) := by
  intro sources t
  have hitems : ∀ source ∈ sources, SourceFile.IsItem source := by
    simp [sources, SourceFile.IsItem]
  have hroot : t.isDirectory (.of "g") = true := by cbv
  have hresult : Grammar.ofSources ⟨true⟩ sources = .error (.orphanedContent "| 'x'".toList
      (some ⟨some (.of "g/b.bnf"), 2⟩)) := by cbv
  refine ⟨hitems, ?_, hroot, (load_outcome ⟨true⟩).2 t {} _ hroot⟩
  rw [← hresult]
  exact (load_outcome ⟨true⟩).1 sources hitems

/-! ## One text -/

/-- The events of a text are clean if it starts with a header and opens no name twice. -/
theorem Event.clean_ofText_iff {reset : Bool} {path : Option Path} {text : Text} :
    Clean reset [] (Event.ofText path text) ↔
      Line.StartsWithHeader (Line.ofText text) ∧ (Line.names (Line.ofText text)).Nodup := by
  have hlines : ∀ e ∈ Event.ofText path text, ∃ place shown, e = line place shown :=
    fun e he => exists_line_of_mem_ofText he
  rw [clean_lines_iff (by simp) hlines, List.nil_append, names_ofText, lines_ofText]
  simp

/-- Reading a text gives a grammar if and only if a header comes first, no name is taken
twice and every definition is accepted. -/
theorem Grammar.ofText_eq_ok_iff {text : Text} {g : Grammar} :
    Grammar.ofText text = .ok g ↔
      Line.StartsWithHeader (Line.ofText text) ∧ (Line.names (Line.ofText text)).Nodup ∧
        (∀ r ∈ blockRules (Line.ofText text), Token.Accepts r.definition) ∧
        g.rules = blockRules (Line.ofText text) := by
  rw [ofText_eq_ofEvents true, ofEvents_eq_ok_iff, clean_ofText_iff, lines_ofText, and_assoc]

/-- A text is a grammar if and only if its first line is a header, its headers have distinct
names and the definition of every block is accepted. The rules are those of the blocks, one
for each header, and the blocks are all of the lines in their order. -/
theorem ofText_blocks (text : Text) :
    ((∃ g, Grammar.ofText text = .ok g) ↔
      Line.StartsWithHeader (Line.ofText text) ∧ (Line.names (Line.ofText text)).Nodup ∧
        ∀ b ∈ blocks (Line.ofText text), Token.Accepts b.rule.definition) ∧
    ∀ g, Grammar.ofText text = .ok g →
      g.rules = (blocks (Line.ofText text)).map Block.rule ∧
      (blocks (Line.ofText text)).map Block.name = Line.names (Line.ofText text) ∧
      (blocks (Line.ofText text)).flatMap Block.lines = Line.ofText text := by
  have haccepts : (∀ r ∈ blockRules (Line.ofText text), Token.Accepts r.definition) ↔
      ∀ b ∈ blocks (Line.ofText text), Token.Accepts b.rule.definition := by
    simp [blockRules]
  simp only [Grammar.ofText_eq_ok_iff, haccepts]
  refine ⟨⟨?_, ?_⟩, ?_⟩
  · rintro ⟨g, hfirst, hnames, hdefinitions, -⟩
    exact ⟨hfirst, hnames, hdefinitions⟩
  · rintro ⟨hfirst, hnames, hdefinitions⟩
    exact ⟨⟨_⟩, hfirst, hnames, hdefinitions, rfl⟩
  · rintro g ⟨hfirst, -, -, hrules⟩
    exact ⟨hrules, map_name_blocks _, flatMap_lines_blocks_iff.2 hfirst⟩

/-- An empty header, mixed line breaks, a blank line, and a sign that is quoted. -/
theorem ofText_blocks_mixed :
    let text := "<a> ::=\r\n\n  'x' \r| <b>\n<b> ::= '::='".toList
    let g : Grammar := ⟨[⟨"a".toList, " 'x' | <b>".toList⟩, ⟨"b".toList, "'::='".toList⟩]⟩
    Grammar.ofText text = .ok g ∧
      g.rules = (blocks (Line.ofText text)).map Block.rule ∧
      (blocks (Line.ofText text)).map Block.name = Line.names (Line.ofText text) ∧
      (blocks (Line.ofText text)).flatMap Block.lines = Line.ofText text := by
  have hresult : Grammar.ofText "<a> ::=\r\n\n  'x' \r| <b>\n<b> ::= '::='".toList =
      .ok ⟨[⟨"a".toList, " 'x' | <b>".toList⟩, ⟨"b".toList, "'::='".toList⟩]⟩ := by cbv
  exact ⟨hresult, (ofText_blocks _).2 _ hresult⟩

end Rulebook
