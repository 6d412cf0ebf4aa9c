import Rulebook.Grammar.Document
import Rulebook.Settings.Basic
import Rulebook.Tree.Write

/-!
# Writing a grammar

The document of a grammar is rendered whole before the file is touched. If there can be no document
nothing is written, and whoever asked for it comes to an end there and then.
-/

namespace Rulebook.Grammar

/-- How writing a document ends. -/
inductive Saving where
  | saved
  /-- The file could not be written. -/
  | failed (e : Error)
  /-- There can be no document. -/
  | aborted
  deriving DecidableEq, Repr

/-- Writes the document of the grammar where the settings say : how that ends, and the tree
afterwards. -/
def save (g : Grammar) (t : Tree) (d : Tree.Device) (settings : OutputSettings) : Saving × Tree :=
  match g.document settings.indent with
  | none => (.aborted, t)
  | some text =>
    let path := settings.path.bytes
    match t.write d path (Text.encode text) with
    | (.ok (), after) => (.saved, after)
    | (.error cause, after) => (.failed (.writeOutput path cause), after)

end Rulebook.Grammar
