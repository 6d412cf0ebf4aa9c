import Rulebook.Grammar
import Rulebook.Line
import Rulebook.Text.Lines

/-!
# Reading lines into a grammar

A cursor names the rule that continuation lines extend. `Grammar.readLine` applies one line
to a grammar : a header inserts a rule and moves the cursor to it, a continuation is
appended to the rule at the cursor. A `Reader` keeps a grammar and its cursor between
lines (`Reader.readLine`); a line that fails leaves the grammar as it was and the cursor empty
(`Reader.readLine_of_error`). `Grammar.ofText` reads and checks one whole text.
-/

namespace Rulebook

open Text

/-- The name of the rule that is open, if there is one. -/
abbrev Cursor := Option Text

/-- Applies a line that is trimmed and not blank : the rule that is open then, or why it fails, and
the grammar afterwards. -/
def Grammar.readLine (g : Grammar) (cursor : Cursor) (line : Text) :
    Except Error Cursor × Grammar :=
  match Line.classify line with
  | .header name definition =>
    let (ended, h) := g.insertRule name definition
    (ended.map fun _ => some name, h)
  | .continuation text =>
    match cursor with
    | some name =>
      let (ended, h) := g.appendText name text
      (ended.map fun _ => some name, h)
    | none => (.error (.orphanedContent text none), g)

/-- A line that fails leaves the grammar as it was. -/
theorem Grammar.readLine_of_error {g : Grammar} {cursor : Cursor} {line : Text} {e : Error}
    (he : (g.readLine cursor line).1 = .error e) : (g.readLine cursor line).2 = g := by
  cases hclass : Line.classify line with
  | header name definition =>
    simp only [readLine, hclass] at he ⊢
    by_cases hname : name ∈ g.names
    · rw [insertRule_of_mem hname]
    · simp [insertRule_of_not_mem hname, Except.map] at he
  | continuation text =>
    cases cursor with
    | none => simp only [readLine, hclass]
    | some name =>
      simp only [readLine, hclass] at he ⊢
      by_cases hname : name ∈ g.names
      · simp [appendText_of_mem hname, Except.map] at he
      · rw [appendText_of_not_mem hname]

/-- A grammar that is being read, and the rule that is open. -/
structure Reader where
  grammar : Grammar
  cursor : Cursor
  deriving DecidableEq, Repr

namespace Reader

/-- Nothing read yet. -/
def start : Reader := ⟨.empty, none⟩

/-- Closes the open rule. -/
def reset (r : Reader) : Reader := { r with cursor := none }

/-- Reads one line that is trimmed and not blank : how that ends, and the reader afterwards. The
open rule is closed first, and a rule is open again if the line does not fail. -/
def readLine (r : Reader) (text : Text) : Except Error Unit × Reader :=
  match r.grammar.readLine r.cursor text with
  | (.ok cursor, g) => (.ok (), ⟨g, cursor⟩)
  | (.error e, g) => (.error e, ⟨g, none⟩)

/-- The reader after a line that does not fail. -/
def addLine (r : Reader) (text : Text) : Except Error Reader := settled (r.readLine text)

/-- What a line leaves behind. -/
def after (r : Reader) (text : Text) : Reader := (r.readLine text).2

/-- A line that fails leaves the grammar as it was, with no open rule. -/
theorem readLine_of_error {r : Reader} {text : Text} {e : Error} (he : r.addLine text = .error e) :
    r.readLine text = (.error e, r.reset) := by
  obtain ⟨result, g, hline⟩ : ∃ result g, r.grammar.readLine r.cursor text = (result, g) :=
    ⟨_, _, rfl⟩
  cases result with
  | ok cursor => simp [addLine, readLine, hline] at he
  | error e' =>
    obtain rfl : g = r.grammar := by
      have hkept := Grammar.readLine_of_error (congrArg Prod.fst hline)
      rwa [hline] at hkept
    simp only [addLine, readLine, hline, settled_error] at he ⊢
    rw [Except.error.inj he, reset]

/-- A line that does not fail leaves behind what it makes. -/
theorem readLine_of_ok {r r' : Reader} {text : Text} (hok : r.addLine text = .ok r') :
    r.readLine text = (.ok (), r') := by
  unfold addLine at hok
  obtain ⟨result, s, hline⟩ : ∃ result s, r.readLine text = (result, s) := ⟨_, _, rfl⟩
  rw [hline] at hok ⊢
  cases result with
  | ok _ =>
    rw [settled_ok] at hok
    rw [Except.ok.inj hok]
  | error e => simp at hok

/-- Reads raw lines, the first of which has the given number : blank ones are skipped, the
others are trimmed, and an error is located at its line. -/
def addLines (path : Option Path) (number : Nat) : List Text → Reader → Except Error Reader
  | [], r => .ok r
  | raw :: rest, r =>
    match trim raw with
    | [] => addLines path (number + 1) rest r
    | text =>
      match r.addLine text with
      | .ok r' => addLines path (number + 1) rest r'
      | .error e => .error (e.locate ⟨path, number⟩)

/-- Reads all lines of a text. -/
def addText (path : Option Path) (text : Text) (r : Reader) : Except Error Reader :=
  addLines path 1 (lines text) r

end Reader

/-- The grammar of one text, checked. -/
def Grammar.ofText (text : Text) : Except Error Grammar := do
  let r ← Reader.start.addText none text
  r.grammar.check
  return r.grammar

end Rulebook
