import Rulebook.Proofs.Events
import Rulebook.Proofs.Rules

/-!
# Runs of a reader

`Reader.run` takes events one by one and does what reading the files does
(`run_ofText`, `run_ofSources`). As long as there is no offence, the grammar holds the rules
of the blocks so far and the cursor is at the last header in reach (`Reader.Holds`) : a step
keeps this (`step_of_not_offence`), and so does a run (`run_of_clean`). The first offence is
what a run ends with (`run_eq_error_iff`).
-/

namespace Rulebook

open Text

/-! ## Runs -/

namespace Reader

open Event

/-- What one event makes of the reader. -/
def step (reset : Bool) (r : Reader) : Event → Except Error Reader
  | .opened => .ok (if reset then r.reset else r)
  | .failed e => .error e
  | .line place text =>
    match r.addLine text with
    | .ok r' => .ok r'
    | .error e => .error (e.locate place)

/-- Takes events one after another, up to the first that fails. -/
def run (reset : Bool) : List Event → Reader → Except Error Reader
  | [], r => .ok r
  | event :: events, r => do run reset events (← r.step reset event)

theorem run_cons_of_ok {reset : Bool} {r r' : Reader} {event : Event} (events : List Event)
    (h : r.step reset event = .ok r') : run reset (event :: events) r = run reset events r' := by
  rw [run, h]
  rfl

theorem run_cons_of_error {reset : Bool} {r : Reader} {event : Event} {e : Error}
    (events : List Event) (h : r.step reset event = .error e) :
    run reset (event :: events) r = .error e := by
  rw [run, h]
  rfl

/-- A run over two lists of events goes on where it stopped. -/
theorem run_append (reset : Bool) (fs : List Event) : ∀ (es : List Event) (r : Reader),
    run reset (es ++ fs) r = (run reset es r >>= run reset fs)
  | [], _ => rfl
  | e :: es, r => by
    cases h : r.step reset e with
    | ok r' => rw [List.cons_append, run_cons_of_ok _ h, run_cons_of_ok _ h, run_append]
    | error error =>
      rw [List.cons_append, run_cons_of_error _ h, run_cons_of_error _ h]
      rfl

/-- Reading a text is running its lines. -/
theorem run_ofText (reset : Bool) (path : Option Path) (text : Text) (r : Reader) :
    run reset (ofText path text) r = r.addText path text := by
  have hfrom : ∀ (raws : List Text) (number : Nat) (r : Reader),
      run reset ((raws.zipIdx number).filterMap fun p =>
        if trim p.1 = [] then none else some (Event.line ⟨path, p.2⟩ (trim p.1))) r =
      addLines path number raws r := by
    intro raws
    induction raws with
    | nil => intro _ _; rfl
    | cons raw raws ih =>
      intro number r
      rw [List.zipIdx_cons, addLines]
      cases htrim : trim raw with
      | nil => simp [htrim, ih]
      | cons c s =>
        simp only [htrim, List.filterMap_cons, reduceCtorEq, if_false]
        cases hline : r.addLine (c :: s) with
        | ok r' => rw [run_cons_of_ok _ (by rw [step, hline]), ih]
        | error e => rw [run_cons_of_error _ (by rw [step, hline])]
  exact hfrom _ 1 r

/-- Reading source files is running their events. -/
theorem run_ofSources (reset : Bool) : ∀ (sources : List (Except Error SourceFile)) (r : Reader),
    run reset (ofSources sources) r = r.addSources reset sources
  | [], _ => rfl
  | .error _ :: _, _ => rfl
  | .ok file :: sources, r => by
    have hopened : r.step reset .opened = .ok (if reset then r.reset else r) := rfl
    rw [ofSources_cons_ok, run_cons_of_ok _ hopened, run_append, run_ofText, addSources, addFile]
    congr 1
    funext r'
    exact run_ofSources reset sources r'

/-! ## What a reader holds -/

/-- What a reader holds after events without an offence. -/
structure Holds (reset : Bool) (before : List Event) (r : Reader) : Prop where
  rules : r.grammar.rules = blockRules (lines before)
  cursor : r.cursor = (names (reach reset before)).getLast?
  nodup : (names before).Nodup

theorem holds_start (reset : Bool) : Holds reset [] start := by
  refine ⟨rfl, ?_, List.nodup_nil⟩
  simp [start]

/-- The grammar has the names that were opened. -/
theorem Holds.names_eq {reset : Bool} {before : List Event} {r : Reader}
    (h : Holds reset before r) : r.grammar.names = names before := by
  rw [Grammar.names, h.rules, map_name_blockRules, Event.names]

/-- The last block is the one that the cursor is at. -/
theorem Holds.exists_last_block {reset : Bool} {before : List Event} {r : Reader} {name : Text}
    (h : Holds reset before r) (hcursor : r.cursor = some name) :
    ∃ bs b, blocks (lines before) = bs ++ [b] ∧ b.name = name := by
  obtain ⟨earlier, hearlier⟩ := names_reach_suffix reset before
  have hlast : (names before).getLast? = some name := by
    rw [← hearlier, List.getLast?_append, ← h.cursor, hcursor]
    rfl
  rw [Event.names, ← map_name_blocks, List.getLast?_map, Option.map_eq_some_iff] at hlast
  obtain ⟨b, hb, hname⟩ := hlast
  exact ⟨_, b, (List.dropLast_append_getLast? b hb).symm, hname⟩

/-- A header inserts its rule and moves the cursor to it. -/
theorem addLine_of_header {text name definition : Text}
    (h : Line.classify text = .header name definition) (r : Reader) :
    r.addLine text = (r.grammar.insert name definition).map (⟨·, some name⟩) := by
  simp only [addLine, readLine, Grammar.readLine, h, Grammar.insert]
  rcases r.grammar.insertRule name definition with ⟨_ | _, g⟩ <;> rfl

/-- A continuation goes to the rule at the cursor. -/
theorem addLine_of_continuation {text shown name : Text} {r : Reader}
    (h : Line.classify text = .continuation shown) (hcursor : r.cursor = some name) :
    r.addLine text = (r.grammar.append name shown).map (⟨·, some name⟩) := by
  simp only [addLine, readLine, Grammar.readLine, h, hcursor, Grammar.append]
  rcases r.grammar.appendText name shown with ⟨_ | _, g⟩ <;> rfl

/-- A continuation without a cursor is an orphan. -/
theorem addLine_of_orphan {text shown : Text} {r : Reader}
    (h : Line.classify text = .continuation shown) (hcursor : r.cursor = none) :
    r.addLine text = .error (.orphanedContent text none) := by
  simp only [addLine, readLine, Grammar.readLine, h, hcursor, Line.eq_of_classify_eq_continuation h]
  rfl

/-- An offence is what its step fails with. -/
theorem step_of_offence {reset : Bool} {before : List Event} {r : Reader} {event : Event}
    {e : Error} (h : Holds reset before r) (hoff : offence? reset before event = some e) :
    r.step reset event = .error e := by
  cases event with
  | opened => simp [offence?] at hoff
  | failed error =>
    obtain rfl : error = e := by simpa [offence?] using hoff
    rfl
  | line place text =>
    cases hclass : Line.classify text with
    | header name definition =>
      simp only [offence?, hclass, Option.ite_none_right_eq_some, Option.some.injEq] at hoff
      obtain ⟨hname, rfl⟩ := hoff
      rw [← h.names_eq] at hname
      rw [step, addLine_of_header hclass, Grammar.insert_of_mem hname]
      rfl
    | continuation shown =>
      simp only [offence?, hclass, Option.ite_none_right_eq_some, Option.some.injEq] at hoff
      obtain ⟨hnames, rfl⟩ := hoff
      have hcursor : r.cursor = none := by rw [h.cursor, hnames, List.getLast?_nil]
      rw [step, addLine_of_orphan hclass hcursor]
      rfl

/-- A file that is opened keeps the invariant. -/
theorem Holds.opened {reset : Bool} {before : List Event} {r : Reader}
    (h : Holds reset before r) :
    Holds reset (before ++ [.opened]) (if reset then r.reset else r) := by
  refine ⟨?_, ?_, ?_⟩
  · rw [lines_append, lines_opened, lines_nil, List.append_nil, ← h.rules]
    split <;> rfl
  · rw [names_reach_concat_opened]
    cases reset with
    | false => exact h.cursor
    | true => rfl
  · rw [names_append, names_opened, names_nil, List.append_nil]
    exact h.nodup

/-- A header under a fresh name opens a block of its own. -/
theorem Holds.header {reset : Bool} {before : List Event} {r : Reader}
    {text name definition : Text} (h : Holds reset before r) (place : Location)
    (hclass : Line.classify text = .header name definition) (hfresh : name ∉ names before) :
    Holds reset (before ++ [.line place text])
      ⟨⟨r.grammar.rules ++ [⟨name, definition⟩]⟩, some name⟩ := by
  refine ⟨?_, ?_, ?_⟩
  · rw [lines_append, lines_line, hclass, blockRules_append _ (by simp), h.rules]
    simp [blockRules, blocks, leading, Block.rule]
  · rw [reach_concat_line, names_append, names_line_of_header hclass, names_nil,
      List.getLast?_concat]
  · rw [names_append, names_line_of_header hclass, names_nil]
    exact List.Nodup.append h.nodup (List.nodup_singleton name) (by simpa using hfresh)

/-- A continuation that reaches a header goes to the last block. -/
theorem Holds.continuation {reset : Bool} {before : List Event} {r : Reader}
    {text shown name : Text} (h : Holds reset before r) (place : Location)
    (hclass : Line.classify text = .continuation shown) (hcursor : r.cursor = some name) :
    ∃ g, r.grammar.append name shown = .ok g ∧
      Holds reset (before ++ [.line place text]) ⟨g, some name⟩ := by
  obtain ⟨bs, b, hblocks, hb⟩ := h.exists_last_block hcursor
  have hrules : r.grammar.rules = bs.map Block.rule ++ [b.rule] := by
    rw [h.rules, blockRules, hblocks, List.map_append]
    rfl
  have hfresh : b.rule.name ∉ (bs.map Block.rule).map Rule.name := by
    have hnodup := h.nodup
    rw [← h.names_eq, Grammar.names, hrules, List.map_append] at hnodup
    exact fun hmem => List.disjoint_of_nodup_append hnodup hmem (by simp)
  refine ⟨⟨bs.map Block.rule ++ [b.rule.extend shown]⟩, ?_, ?_, ?_, ?_⟩
  · rw [← hb, ← Grammar.append_last hfresh, ← hrules]
    rfl
  · rw [lines_append, lines_line, hclass, lines_nil, blockRules,
      blocks_concat_continuation shown _ bs hblocks]
    simp
  · rw [reach_concat_line, names_append, names_line_of_continuation hclass, names_nil,
      List.append_nil, ← h.cursor, hcursor]
  · rw [names_append, names_line_of_continuation hclass, names_nil, List.append_nil]
    exact h.nodup

/-- An event that is no offence is taken, and the reader holds what it should. -/
theorem step_of_not_offence {reset : Bool} {before : List Event} {r : Reader} {event : Event}
    (h : Holds reset before r) (hoff : offence? reset before event = none) :
    ∃ r', r.step reset event = .ok r' ∧ Holds reset (before ++ [event]) r' := by
  cases event with
  | opened => exact ⟨_, rfl, h.opened⟩
  | failed error => simp [offence?] at hoff
  | line place text =>
    cases hclass : Line.classify text with
    | header name definition =>
      simp only [offence?, hclass, ite_eq_right_iff, reduceCtorEq, imp_false] at hoff
      refine ⟨_, ?_, h.header place hclass hoff⟩
      rw [← h.names_eq] at hoff
      rw [step, addLine_of_header hclass, Grammar.insert_of_not_mem hoff]
      rfl
    | continuation shown =>
      simp only [offence?, hclass, ite_eq_right_iff, reduceCtorEq, imp_false] at hoff
      obtain ⟨name, hname⟩ := Option.ne_none_iff_exists'.1 (mt List.getLast?_eq_none_iff.1 hoff)
      have hcursor : r.cursor = some name := h.cursor.trans hname
      obtain ⟨g, hg, hnext⟩ := h.continuation place hclass hcursor
      refine ⟨_, ?_, hnext⟩
      rw [step, addLine_of_continuation hclass hcursor, hg]
      rfl

/-! ## What a run ends with -/

/-- Without an offence a run goes to its end. -/
theorem run_of_clean {reset : Bool} : ∀ {events before : List Event} {r : Reader},
    Holds reset before r → Clean reset before events →
    ∃ r', run reset events r = .ok r' ∧ Holds reset (before ++ events) r'
  | [], before, r, h, _ => ⟨r, rfl, by simpa using h⟩
  | event :: events, before, r, h, hclean => by
    obtain ⟨hevent, hevents⟩ := clean_cons.1 hclean
    obtain ⟨r₁, hstep, h₁⟩ := step_of_not_offence h hevent
    obtain ⟨r₂, hrun, h₂⟩ := run_of_clean h₁ hevents
    exact ⟨r₂, by rw [run_cons_of_ok _ hstep, hrun], by simpa using h₂⟩

/-- The first offence ends a run, whatever comes after it. -/
theorem run_of_firstOffence {reset : Bool} {events : List Event} {e : Error}
    (h : FirstOffence reset events e) : run reset events start = .error e := by
  obtain ⟨done, event, rest, rfl, hclean, hoff⟩ := h
  obtain ⟨r, hrun, hr⟩ := run_of_clean (holds_start reset) hclean
  have hstep : run reset (event :: rest) r = .error e :=
    run_cons_of_error rest (step_of_offence (by simpa using hr) hoff)
  rw [run_append, hrun]
  exact hstep

/-- A run fails only with the error of the first event that offends. -/
theorem run_eq_error_iff {reset : Bool} {events : List Event} {e : Error} :
    run reset events start = .error e ↔ FirstOffence reset events e := by
  refine ⟨fun h => ?_, run_of_firstOffence⟩
  rcases clean_or_firstOffence reset events with hclean | ⟨e', he'⟩
  · obtain ⟨r, hrun, -⟩ := run_of_clean (holds_start reset) hclean
    rw [hrun] at h
    simp at h
  · rw [run_of_firstOffence he'] at h
    obtain rfl : e' = e := by simpa using h
    exact he'

end Reader

end Rulebook
