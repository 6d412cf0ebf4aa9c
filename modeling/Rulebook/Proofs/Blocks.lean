import Mathlib.Data.List.Basic
import Rulebook.Grammar
import Rulebook.Line
import Rulebook.Text.Lines

/-!
# Rules as blocks of lines

Read block by block, a text is a list of headers, each with the continuation lines up to
the next one (`blocks`), and each block is a rule (`Block.rule`). If the first line is a
header, the blocks one after another are all of the lines, in order
(`flatMap_lines_blocks_iff`). Lines that start with a header have blocks of their own,
whatever comes before them (`blocks_append`, `blockRules_flatMap`), and a continuation at
the end goes to the last block (`blocks_concat_continuation`).
-/

namespace Rulebook

open Text

/-! ## Lines that are read -/

namespace Line

/-- Whether the line opens a rule. -/
def isHeader : Line → Bool
  | header _ _ => true
  | continuation _ => false

/-- The name that a header opens. -/
def name? : Line → Option Text
  | header name _ => some name
  | continuation _ => none

/-- The lines of a text that are not blank, trimmed and classified. -/
def ofText (text : Text) : List Line :=
  (((lines text).map trim).filter (· ≠ [])).map classify

/-- The names that headers open, in order. -/
def names (lines : List Line) : List Text := lines.filterMap name?

/-- The first line, if there is one, is a header. -/
def StartsWithHeader (lines : List Line) : Prop := ∀ line ∈ lines.head?, line.isHeader = true

/-- A continuation is the whole line. -/
theorem eq_of_classify_eq_continuation {text shown : Text}
    (h : classify text = continuation shown) : shown = text := by
  unfold classify at h
  split at h
  · simp at h
  · exact (continuation.inj h).symm

@[simp] theorem names_nil : names [] = [] := rfl

@[simp] theorem names_append (ls ms : List Line) : names (ls ++ ms) = names ls ++ names ms :=
  List.filterMap_append

@[simp] theorem names_header (name definition : Text) (ls : List Line) :
    names (header name definition :: ls) = name :: names ls := rfl

@[simp] theorem names_continuation (text : Text) (ls : List Line) :
    names (continuation text :: ls) = names ls := rfl

@[simp] theorem startsWithHeader_nil : StartsWithHeader [] := by simp [StartsWithHeader]

@[simp] theorem startsWithHeader_header (name definition : Text) (ls : List Line) :
    StartsWithHeader (header name definition :: ls) := by
  simp [StartsWithHeader, isHeader]

@[simp] theorem not_startsWithHeader_continuation (text : Text) (ls : List Line) :
    ¬StartsWithHeader (continuation text :: ls) := by
  simp [StartsWithHeader, isHeader]

end Line

/-! ## Blocks -/

/-- A header and the continuation lines below it. -/
structure Block where
  name : Text
  definition : Text
  continuations : List Text
  deriving DecidableEq, Repr

namespace Block

/-- The lines of the block, the header first. -/
def lines (b : Block) : List Line :=
  .header b.name b.definition :: b.continuations.map .continuation

/-- The rule that the block gives : the definition of the header, then a space and the text
for each continuation. -/
def rule (b : Block) : Rule := ⟨b.name, b.definition ++ b.continuations.flatMap (' ' :: ·)⟩

/-- The block with one more continuation line. -/
def extend (b : Block) (text : Text) : Block :=
  { b with continuations := b.continuations ++ [text] }

@[simp] theorem rule_extend (b : Block) (text : Text) :
    (b.extend text).rule = b.rule.extend text := by
  simp [rule, extend, Rule.extend]

end Block

/-- The continuations before the first header. -/
def leading : List Line → List Text
  | .continuation text :: lines => text :: leading lines
  | _ => []

/-- The blocks that the headers open, in order. -/
def blocks : List Line → List Block
  | [] => []
  | .header name definition :: lines => ⟨name, definition, leading lines⟩ :: blocks lines
  | .continuation _ :: lines => blocks lines

/-- The rules that the blocks give, in order. -/
def blockRules (lines : List Line) : List Rule := (blocks lines).map Block.rule

/-! ## What blocks hold -/

/-- Every header opens one block, under its name. -/
theorem map_name_blocks : ∀ lines : List Line, (blocks lines).map Block.name = Line.names lines
  | [] => rfl
  | .header name definition :: lines => by simp [blocks, map_name_blocks lines]
  | .continuation _ :: lines => by simp [blocks, map_name_blocks lines]

/-- The rules of lines have the names that are opened, in order. -/
theorem map_name_blockRules (lines : List Line) :
    (blockRules lines).map Rule.name = Line.names lines := by
  rw [blockRules, List.map_map, ← map_name_blocks]
  rfl

/-- No line is lost, repeated or moved : the lines are those before the first header, then
the blocks one after another. -/
theorem leading_append_blocks : ∀ lines : List Line,
    (leading lines).map Line.continuation ++ (blocks lines).flatMap Block.lines = lines
  | [] => rfl
  | .header name definition :: lines => by
    have ih := leading_append_blocks lines
    simp [leading, blocks, Block.lines, ih]
  | .continuation text :: lines => by
    have ih := leading_append_blocks lines
    simp [leading, blocks, ih]

/-- Nothing leads lines that start with a header, and only those. -/
theorem leading_eq_nil_iff {lines : List Line} :
    leading lines = [] ↔ Line.StartsWithHeader lines := by
  rcases lines with _ | ⟨_ | _, _⟩ <;> simp [leading]

/-- The blocks are all of the lines if and only if the first line is a header. -/
theorem flatMap_lines_blocks_iff {lines : List Line} :
    (blocks lines).flatMap Block.lines = lines ↔ Line.StartsWithHeader lines := by
  rw [← leading_eq_nil_iff]
  refine ⟨fun h => ?_, ?_⟩
  · have hall := leading_append_blocks lines
    rw [h] at hall
    simpa using hall
  · intro h
    simpa [h] using leading_append_blocks lines

/-! ## Lines at the end -/

/-- Lines that start with a header add nothing to what leads the lines before them. -/
theorem leading_append {ms : List Line} (h : Line.StartsWithHeader ms) : ∀ ls : List Line,
    leading (ls ++ ms) = leading ls
  | [] => leading_eq_nil_iff.2 h
  | .header _ _ :: _ => rfl
  | .continuation _ :: ls => by simp [leading, leading_append h ls]

/-- Lines that start with a header have blocks of their own. -/
theorem blocks_append {ms : List Line} (h : Line.StartsWithHeader ms) : ∀ ls : List Line,
    blocks (ls ++ ms) = blocks ls ++ blocks ms
  | [] => rfl
  | .header _ _ :: ls => by simp [blocks, blocks_append h ls, leading_append h ls]
  | .continuation _ :: ls => by simp [blocks, blocks_append h ls]

/-- Lines that start with a header make rules of their own. -/
theorem blockRules_append (ls : List Line) {ms : List Line} (h : Line.StartsWithHeader ms) :
    blockRules (ls ++ ms) = blockRules ls ++ blockRules ms := by
  simp [blockRules, blocks_append h ls]

theorem startsWithHeader_append {ls ms : List Line} (hls : Line.StartsWithHeader ls)
    (hms : Line.StartsWithHeader ms) : Line.StartsWithHeader (ls ++ ms) := by
  cases ls with
  | nil => exact hms
  | cons line ls => exact hls

/-- Parts that each start with a header have blocks of their own. -/
theorem blockRules_flatMap {α : Type} (f : α → List Line) : ∀ {parts : List α},
    (∀ a ∈ parts, Line.StartsWithHeader (f a)) → Line.StartsWithHeader (parts.flatMap f) ∧
      blockRules (parts.flatMap f) = parts.flatMap fun a => blockRules (f a)
  | [], _ => ⟨by simp, rfl⟩
  | a :: parts, h => by
    obtain ⟨ha, hparts⟩ := List.forall_mem_cons.1 h
    obtain ⟨hfirst, hrules⟩ := blockRules_flatMap f hparts
    rw [List.flatMap_cons, List.flatMap_cons, blockRules_append _ hfirst, hrules]
    exact ⟨startsWithHeader_append ha hfirst, rfl⟩

/-- A continuation at the end, where no header comes before it. -/
theorem blocks_concat_of_eq_nil (text : Text) : ∀ (ls : List Line), blocks ls = [] →
    blocks (ls ++ [.continuation text]) = [] ∧
      leading (ls ++ [.continuation text]) = leading ls ++ [text]
  | [], _ => ⟨rfl, rfl⟩
  | .header _ _ :: _, h => by simp [blocks] at h
  | .continuation _ :: ls, h => by
    obtain ⟨hblocks, hleading⟩ := blocks_concat_of_eq_nil text ls h
    exact ⟨hblocks, by simp [leading, hleading]⟩

theorem leading_concat_of_ne_nil (line : Line) : ∀ (ls : List Line), blocks ls ≠ [] →
    leading (ls ++ [line]) = leading ls
  | [], h => absurd rfl h
  | .header _ _ :: _, _ => rfl
  | .continuation _ :: ls, h => by simp [leading, leading_concat_of_ne_nil line ls h]

/-- A continuation at the end goes to the last block. -/
theorem blocks_concat_continuation (text : Text) {b : Block} :
    ∀ (ls : List Line) (bs : List Block), blocks ls = bs ++ [b] →
      blocks (ls ++ [.continuation text]) = bs ++ [b.extend text]
  | [], bs, h => by simp [blocks] at h
  | .continuation _ :: ls, bs, h => blocks_concat_continuation text ls bs h
  | .header name definition :: ls, [], h => by
    simp only [blocks, List.nil_append, List.cons.injEq] at h
    obtain ⟨rfl, hnil⟩ := h
    obtain ⟨hblocks, hleading⟩ := blocks_concat_of_eq_nil text ls hnil
    rw [List.cons_append, blocks, hblocks, hleading]
    rfl
  | .header name definition :: ls, b' :: bs, h => by
    simp only [blocks, List.cons_append, List.cons.injEq] at h
    obtain ⟨rfl, h⟩ := h
    have hne : blocks ls ≠ [] := by simp [h]
    rw [List.cons_append, blocks, leading_concat_of_ne_nil _ ls hne,
      blocks_concat_continuation text ls bs h, List.cons_append]

end Rulebook
