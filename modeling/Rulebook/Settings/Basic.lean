import Rulebook.Path

/-!
# Settings

What can be set : which files are read, how lines carry on from file to file, and where and
how the document is written. The values here are the defaults.
-/

namespace Rulebook

/-- Which files below the root are read. -/
structure SourceSettings where
  extension : Text := ['b', 'n', 'f']
  followLinks : Bool := false
  deriving DecidableEq, Repr

/-- How lines carry on from file to file. -/
structure ParsingSettings where
  /-- Whether every file starts with no open rule. -/
  resetCursorPerFile : Bool := true
  deriving DecidableEq, Repr

/-- Where and how the document is written. -/
structure OutputSettings where
  path : Text := "grammar.json".toList
  indent : Nat := 4
  deriving DecidableEq, Repr

/-- All that can be set. -/
structure Settings where
  source : SourceSettings := {}
  parsing : ParsingSettings := {}
  output : OutputSettings := {}
  deriving DecidableEq, Repr

namespace SourceSettings

/-- How the names of the selected files end : a dot and the extension without dots in front. -/
def suffix (s : SourceSettings) : Text := '.' :: s.extension.dropWhile (· = '.')

/-- Whether a file of this name is selected : the name is a text, and ends with the suffix. -/
def selects (s : SourceSettings) (name : Name) : Bool :=
  name.isText && s.suffix.bytes.isSuffixOf name

end SourceSettings

end Rulebook
