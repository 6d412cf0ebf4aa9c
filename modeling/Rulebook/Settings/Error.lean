import Rulebook.Settings.Path

/-!
# Errors in settings

Why settings cannot be put together from their layers, and the messages that say it.
-/

namespace Rulebook.Settings

/-- The three parts of the settings. -/
inductive Section where
  | source
  | parsing
  | output
  deriving DecidableEq, Repr

namespace Section

/-- The name under which a layer gives the section. -/
def name : Section → Text
  | source => "source".toList
  | parsing => "parsing".toList
  | output => "output".toList

/-- The names of the fields, in order. -/
def fields : Section → List Text
  | source => ["extension".toList, "follow_links".toList]
  | parsing => ["reset_cursor_per_file".toList]
  | output => ["path".toList, "indent".toList]

/-- What a message calls the section. -/
def title : Section → String
  | source => "struct SourceConfig"
  | parsing => "struct ParsingConfig"
  | output => "struct OutputConfig"

/-- What a message calls the fields of the section. -/
def size (s : Section) : String :=
  match s.fields.length with
  | 1 => "1 element"
  | n => toString n ++ " elements"

end Section

/-- What a field needs. -/
inductive Expected where
  | boolean
  | integer
  | unsigned
  | string
  deriving DecidableEq, Repr

/-- What a message says that a field needs. -/
def Expected.message : Expected → String
  | boolean => "a boolean"
  | integer => "an integer"
  | unsigned => "an unsigned 64 bit or less integer"
  | string => "a string"

/-- Why settings cannot be put together. -/
inductive Error where
  /-- A file is no TOML document. -/
  | malformed (file : Path)
  /-- The value of a file is no table. -/
  | notATable (found : String) (file : Path)
  | notFound (path : Path)
  | notUtf8
  /-- The name of an override is no path. -/
  | badPath (fault : PathFault)
  /-- The value of a field cannot be converted. -/
  | invalidValue (found : String) (expected : Expected) (key : Text) (file : Option Path)
  | missingField (field : Text)
  /-- Neither a table nor a list is given for a section. -/
  | notASection (found : Datum) (part : Section)
  /-- The list given for a section is too short. -/
  | tooFewItems (count : Nat) (part : Section)
  deriving DecidableEq, Repr

/-- The message of the error. -/
def Error.message : Error → String
  | malformed _ => "TOML parse error"
  | notATable found file =>
    "invalid type: " ++ found ++ ", expected a map in " ++ file.shown ++ " in " ++ file.shown
  | notFound path => "configuration file \"" ++ path.shown ++ "\" not found"
  | notUtf8 => "stream did not contain valid UTF-8"
  | badPath fault => fault.message
  | invalidValue found expected key file =>
    "invalid type: " ++ found ++ ", expected " ++ expected.message ++ " for key `" ++ .ofList key
      ++ "`" ++ (match file with
        | some file => " in " ++ file.shown
        | none => "")
  | missingField field => "missing field `" ++ .ofList field ++ "`"
  | notASection found part =>
    "invalid type: " ++ found.describedPlainly ++ ", expected " ++ part.title
  | tooFewItems count part =>
    "invalid length " ++ toString count ++ ", expected " ++ part.title ++ " with " ++ part.size

end Rulebook.Settings
