import Rulebook.Reader
import Rulebook.Settings.Basic
import Rulebook.Tree.Walk

/-!
# Source files

`SourceFile.collect` gives the files below a root that the settings select, in the order of
the walk, each with its text or with the reason why there is none. `Grammar.ofSources`
reads them one after another into one grammar and checks it; the first error ends the
reading. `Grammar.load` does both.
-/

namespace Rulebook

/-- A file of grammar rules. -/
structure SourceFile where
  path : Path
  text : Text
  deriving DecidableEq, Repr

namespace SourceFile

/-- The file at a path. -/
def read (t : Tree) (path : Path) : Except Error SourceFile :=
  match t.read path with
  | .ok text => .ok ⟨path, text⟩
  | .error cause => .error (.fileRead path cause)

/-- The lines of the file. -/
def lines (file : SourceFile) : List Text := Text.lines file.text

/-- The source file, or the error, that something found by the walk stands for. A file
counts if its name is selected and it is regular, also behind a link. -/
def ofFound (t : Tree) (settings : SourceSettings) : Tree.Found → Option (Except Error SourceFile)
  | .failed path cause => some (.error (.walk path cause))
  | .entry path name =>
    if settings.selects name ∧ t.isFile path then some (read t path) else none

/-- The selected files below the root, in the order of the walk. -/
def collect (t : Tree) (settings : SourceSettings) (root : Path) :
    Except Error (List (Except Error SourceFile)) :=
  if t.isDirectory root then
    .ok ((t.walk settings.followLinks root).filterMap (ofFound t settings))
  else .error (.missingRoot root)

end SourceFile

namespace Reader

/-- Reads one file, with no open rule at its start if `reset` is set. -/
def addFile (reset : Bool) (file : SourceFile) (r : Reader) : Except Error Reader :=
  addText (some file.path) file.text (if reset then r.reset else r)

/-- Reads files one after another, up to the first that could not be had. -/
def addSources (reset : Bool) : List (Except Error SourceFile) → Reader → Except Error Reader
  | [], r => .ok r
  | .error e :: _, _ => .error e
  | .ok file :: rest, r => do addSources reset rest (← r.addFile reset file)

end Reader

namespace Grammar

/-- The grammar of files read one after another, checked when all are read. -/
def ofSources (settings : ParsingSettings) (sources : List (Except Error SourceFile)) :
    Except Error Grammar := do
  let r ← Reader.start.addSources settings.resetCursorPerFile sources
  r.grammar.check
  return r.grammar

/-- The grammar of the selected files below the root. -/
def load (t : Tree) (source : SourceSettings) (parsing : ParsingSettings) (root : Path) :
    Except Error Grammar := do
  ofSources parsing (← SourceFile.collect t source root)

end Grammar

end Rulebook
