import Mathlib.Data.List.DropRight
import Mathlib.Data.List.Nodup
import Rulebook.Proofs.Content
import Rulebook.Source

/-!
# Source files as events

What a reader meets on its way through source files is a list of events : a file is
opened, a line that is not blank is read, a file cannot be had (`Event.ofSources`). The texts
of the lines are the content of the files (`texts_ofSources`). Whether an event is an offence
is said by the events before it alone (`Event.offence?`) : by the names that headers have
opened, and by the headers that a continuation can still reach. A list of events either is
clean or has a first offence (`clean_or_firstOffence`).
-/

namespace Rulebook

open Text

/-! ## Events -/

/-- What a reader meets. -/
inductive Event where
  /-- A file starts. -/
  | opened
  /-- A line that is not blank, trimmed. -/
  | line (place : Location) (text : Text)
  /-- A file could not be had. -/
  | failed (error : Error)
  deriving DecidableEq, Repr

namespace Event

/-- The text of the line, if the event is a line. -/
def text? : Event → Option Text
  | line _ text => some text
  | _ => none

/-- The texts of the lines that are read. -/
def texts (events : List Event) : List Text := events.filterMap text?

/-- What the line says, if the event is a line. -/
def line? : Event → Option Line
  | line _ text => some (.classify text)
  | _ => none

/-- The lines that are read. -/
def lines (events : List Event) : List Line := events.filterMap line?

/-- The names that headers open. -/
def names (events : List Event) : List Text := Line.names (lines events)

/-- The lines of a text that are not blank, each with its number among all lines. -/
def ofText (path : Option Path) (text : Text) : List Event :=
  ((Text.lines text).zipIdx 1).filterMap fun (raw, number) =>
    if trim raw = [] then none else some (line ⟨path, number⟩ (trim raw))

/-- The events of one source file. -/
def ofSource : Except Error SourceFile → List Event
  | .error e => [failed e]
  | .ok file => opened :: ofText (some file.path) file.text

/-- The events of source files, one after another. -/
def ofSources (sources : List (Except Error SourceFile)) : List Event := sources.flatMap ofSource

/-- The events before that a continuation can reach : all of them, or those since the file
at hand was opened if `reset` is set. -/
def reach (reset : Bool) (before : List Event) : List Event :=
  if reset then before.rtakeWhile (· ≠ opened) else before

/-- The error that an event is, after those before it : a file that could not be had, a
header whose name is taken, or a continuation that reaches no header. -/
def offence? (reset : Bool) (before : List Event) : Event → Option Error
  | opened => none
  | failed error => some error
  | line place text =>
    match Line.classify text with
    | .header name _ =>
      if name ∈ names before then some (.duplicateRule name (some place)) else none
    | .continuation _ =>
      if names (reach reset before) = [] then some (.orphanedContent text (some place)) else none

/-- None of the events is an offence after `before`. -/
def Clean (reset : Bool) (before events : List Event) : Prop :=
  ∀ done event rest, events = done ++ event :: rest → offence? reset (before ++ done) event = none

/-- The error of the first event that is an offence. -/
def FirstOffence (reset : Bool) (events : List Event) (e : Error) : Prop :=
  ∃ done event rest, events = done ++ event :: rest ∧ Clean reset [] done ∧
    offence? reset done event = some e

/-! ## Lines and names -/

@[simp] theorem lines_nil : lines [] = [] := rfl

@[simp] theorem lines_append (es fs : List Event) : lines (es ++ fs) = lines es ++ lines fs :=
  List.filterMap_append

@[simp] theorem lines_opened (es : List Event) : lines (opened :: es) = lines es := rfl

@[simp] theorem lines_line (place : Location) (text : Text) (es : List Event) :
    lines (line place text :: es) = .classify text :: lines es := rfl

@[simp] theorem names_nil : names [] = [] := rfl

@[simp] theorem names_append (es fs : List Event) : names (es ++ fs) = names es ++ names fs := by
  simp [names]

@[simp] theorem names_opened (es : List Event) : names (opened :: es) = names es := rfl

theorem names_line_of_header {text name definition : Text}
    (h : Line.classify text = .header name definition) (place : Location) (es : List Event) :
    names (line place text :: es) = name :: names es := by
  rw [names, lines_line, h]
  rfl

theorem names_line_of_continuation {text shown : Text}
    (h : Line.classify text = .continuation shown) (place : Location) (es : List Event) :
    names (line place text :: es) = names es := by
  rw [names, lines_line, h]
  rfl

/-! ## What is read of files -/

theorem texts_append (es fs : List Event) : texts (es ++ fs) = texts es ++ texts fs :=
  List.filterMap_append

theorem texts_opened (es : List Event) : texts (opened :: es) = texts es := rfl

theorem lines_eq_map_texts (events : List Event) :
    lines events = (texts events).map Line.classify := by
  rw [lines, texts, List.map_filterMap]
  refine List.filterMap_congr fun e _ => ?_
  cases e <;> rfl

/-- What is read of a text is its content. -/
theorem texts_ofText (path : Option Path) (text : Text) :
    texts (ofText path text) = content text := by
  rw [content, ← List.filterMap_eq_filter, List.filterMap_map, texts, ofText,
    List.filterMap_filterMap]
  conv_rhs => rw [← List.zipIdx_map_fst 1 (Text.lines text), List.filterMap_map]
  refine List.filterMap_congr fun p _ => ?_
  by_cases h : trim p.1 = [] <;> simp [h, text?, Option.guard]

theorem ofSources_cons_ok (file : SourceFile) (sources : List (Except Error SourceFile)) :
    ofSources (.ok file :: sources) =
      opened :: (ofText (some file.path) file.text ++ ofSources sources) := rfl

/-- The texts of files are the contents of one file after the other. -/
theorem texts_ofSources : ∀ files : List SourceFile,
    texts (ofSources (files.map .ok)) = (files.map SourceFile.text).flatMap content
  | [] => rfl
  | file :: files => by
    rw [List.map_cons, ofSources_cons_ok, texts_opened, texts_append, texts_ofText,
      texts_ofSources files, List.map_cons, List.flatMap_cons]

/-- The lines of the events of a text are the lines of the text. -/
theorem lines_ofText (path : Option Path) (text : Text) :
    lines (ofText path text) = Line.ofText text := by
  rw [lines_eq_map_texts, texts_ofText, Line.ofText_eq_map_content]

theorem names_ofText (path : Option Path) (text : Text) :
    names (ofText path text) = Line.names (Line.ofText text) := by
  rw [names, lines_ofText]

/-! ## Reach -/

@[simp] theorem reach_nil (reset : Bool) : reach reset [] = [] := by
  cases reset <;> simp [reach]

@[simp] theorem reach_concat_line (reset : Bool) (before : List Event) (place : Location)
    (text : Text) :
    reach reset (before ++ [line place text]) = reach reset before ++ [line place text] := by
  cases reset with
  | false => rfl
  | true => simp [reach]

/-- Opening a file puts all headers out of reach, or none. -/
theorem names_reach_concat_opened (reset : Bool) (before : List Event) :
    names (reach reset (before ++ [opened])) =
      if reset then [] else names (reach reset before) := by
  cases reset with
  | false => simp [reach]
  | true => simp [reach]

/-- The names within reach of the cursor are the last that were opened. -/
theorem names_reach_suffix (reset : Bool) (before : List Event) :
    names (reach reset before) <:+ names before := by
  have hsuffix : reach reset before <:+ before := by
    cases reset with
    | false => exact List.suffix_rfl
    | true => exact List.rtakeWhile_suffix _ _
  exact (hsuffix.filterMap _).filterMap _

/-! ## Clean events -/

@[simp] theorem clean_nil (reset : Bool) (before : List Event) : Clean reset before [] := by
  simp [Clean]

theorem clean_cons {reset : Bool} {before events : List Event} {event : Event} :
    Clean reset before (event :: events) ↔
      offence? reset before event = none ∧ Clean reset (before ++ [event]) events := by
  refine ⟨fun h => ?_, ?_⟩
  · refine ⟨by simpa using h [] event events rfl, fun done e rest heq => ?_⟩
    simpa using h (event :: done) e rest (by simp [heq])
  · rintro ⟨hevent, hevents⟩ done e rest heq
    rcases List.cons_eq_append_iff.1 heq with ⟨rfl, h⟩ | ⟨done', rfl, rfl⟩
    · obtain ⟨rfl, -⟩ := List.cons.inj h
      simpa using hevent
    · simpa using hevents done' e rest rfl

/-- Events are clean if the first ones are, and the others behind them. -/
theorem clean_append {reset : Bool} {before es fs : List Event} :
    Clean reset before (es ++ fs) ↔ Clean reset before es ∧ Clean reset (before ++ es) fs := by
  induction es generalizing before with
  | nil => simp
  | cons e es ih => simp [clean_cons, ih, and_assoc]

/-- A header offends if its name was opened before. -/
theorem offence?_of_header {text name definition : Text}
    (h : Line.classify text = .header name definition) (reset : Bool) (before : List Event)
    (place : Location) : offence? reset before (line place text) =
      if name ∈ names before then some (.duplicateRule name (some place)) else none := by
  simp only [offence?, h]

/-- A continuation offends if no name is within reach. -/
theorem offence?_of_continuation {text shown : Text}
    (h : Line.classify text = .continuation shown) (reset : Bool) (before : List Event)
    (place : Location) : offence? reset before (line place text) =
      if names (reach reset before) = [] then some (.orphanedContent text (some place))
      else none := by
  simp only [offence?, h]

/-- Lines in a row are clean if and only if a header comes first, unless one is in reach, and
no name is taken twice. -/
theorem clean_lines_iff {reset : Bool} : ∀ {events before : List Event},
    (names before).Nodup → (∀ e ∈ events, ∃ place text, e = line place text) →
    (Clean reset before events ↔
      (names (reach reset before) = [] → Line.StartsWithHeader (lines events)) ∧
        (names (before ++ events)).Nodup)
  | [], before, hbefore, _ => by simpa using hbefore
  | e :: events, before, hbefore, hlines => by
    obtain ⟨⟨place, text, rfl⟩, hrest⟩ := List.forall_mem_cons.1 hlines
    rw [clean_cons, List.append_cons before _ events]
    cases hclass : Line.classify text with
    | header name definition =>
      rw [offence?_of_header hclass, lines_line, hclass]
      by_cases hname : name ∈ names before
      · rw [if_pos hname]
        refine iff_of_false (by simp) fun ⟨_, hnodup⟩ => ?_
        rw [names_append, names_append, names_line_of_header hclass] at hnodup
        exact List.disjoint_of_nodup_append hnodup.of_append_left hname (by simp)
      · have hfresh : (names (before ++ [line place text])).Nodup := by
          rw [names_append, names_line_of_header hclass, names_nil]
          exact hbefore.append (List.nodup_singleton name) (by simpa using hname)
        have hreach : names (reach reset (before ++ [line place text])) ≠ [] := by
          simp [names_line_of_header hclass]
        rw [if_neg hname, clean_lines_iff hfresh hrest]
        simp only [hreach, false_implies, true_and, Line.startsWithHeader_header, implies_true]
    | continuation shown =>
      rw [offence?_of_continuation hclass, lines_line, hclass]
      by_cases hreach : names (reach reset before) = []
      · simp [hreach]
      · have hnames : names (before ++ [line place text]) = names before := by
          simp [names_line_of_continuation hclass]
        have hreach' : names (reach reset (before ++ [line place text])) ≠ [] := by
          simp [hreach]
        rw [if_neg hreach, clean_lines_iff (by rwa [hnames]) hrest]
        simp only [hreach, hreach', false_implies, true_and]

theorem exists_line_of_mem_ofText {path : Option Path} {text : Text} {e : Event}
    (h : e ∈ ofText path text) : ∃ place shown, e = line place shown := by
  simp only [ofText, List.mem_filterMap, Prod.exists, Option.ite_none_left_eq_some,
    Option.some.injEq] at h
  obtain ⟨raw, number, -, -, rfl⟩ := h
  exact ⟨_, _, rfl⟩

/-- Either there is no offence, or there is a first one. -/
theorem clean_or_firstOffence (reset : Bool) (events : List Event) :
    Clean reset [] events ∨ ∃ e, FirstOffence reset events e := by
  induction events using List.reverseRecOn with
  | nil => exact Or.inl (clean_nil reset [])
  | append_singleton events event ih =>
    rcases ih with hclean | ⟨e, done, first, rest, rfl, hdone, hfirst⟩
    · cases hoff : offence? reset events event with
      | none => exact Or.inl (clean_append.2 ⟨hclean, clean_cons.2 ⟨by simpa, clean_nil _ _⟩⟩)
      | some e => exact Or.inr ⟨e, events, event, [], rfl, hclean, hoff⟩
    · exact Or.inr ⟨e, done, first, rest ++ [event], by simp, hdone, hfirst⟩

end Event

end Rulebook
