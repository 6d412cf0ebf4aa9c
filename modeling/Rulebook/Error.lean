import Rulebook.Path

/-!
# Errors

What can go wrong while grammars are read, merged and written, each cause with the data it
is about, and the message that says it. A rule given twice and a line that continues nothing
can be located in a file or in a text; the place that is attached first is kept (`locate_locate`).
-/

namespace Rulebook

/-- Why the system refused to read or write a path, or to give its text. -/
inductive Cause where
  | notFound
  | notDirectory
  | isDirectory
  | tooManyLinks
  | nameTooLong
  /-- The path has a null byte in it. -/
  | nullByte
  | notUtf8
  /-- What a device says that does not take a file. -/
  | device (report : Text)
  deriving DecidableEq, Repr

/-- What a message says of the cause. -/
def Cause.message : Cause → String
  | notFound => "No such file or directory (os error 2)"
  | notDirectory => "Not a directory (os error 20)"
  | isDirectory => "Is a directory (os error 21)"
  | tooManyLinks => "Too many levels of symbolic links (os error 40)"
  | nameTooLong => "File name too long (os error 36)"
  | nullByte => "file name contained an unexpected NUL byte"
  | notUtf8 => "stream did not contain valid UTF-8"
  | device report => .ofList report

/-- Why a directory walk could not go on at a path. -/
inductive WalkCause where
  | system (cause : Cause)
  | loop (ancestor : Path)
  deriving DecidableEq, Repr

/-- What stopped the walk at `path`. -/
def WalkCause.message (path : Path) : WalkCause → String
  | system cause => "IO error for operation on " ++ path.shown ++ ": " ++ cause.message
  | loop ancestor =>
    "File system loop found: " ++ path.shown ++ " points to an ancestor " ++ ancestor.shown

/-- A line, counted from one, of a file or of a text without a file. -/
structure Location where
  path : Option Path
  line : Nat
  deriving DecidableEq, Repr

/-- The place as a message gives it. -/
def Location.message : Location → String
  | ⟨some path, line⟩ => path.shown ++ ":" ++ toString line
  | ⟨none, line⟩ => "line " ++ toString line

/-- A failure to merge grammars. -/
inductive Error where
  | missingRoot (path : Path)
  | fileRead (path : Path) (cause : Cause)
  | walk (path : Path) (cause : WalkCause)
  | duplicateRule (name : Text) (location : Option Location)
  | orphanedContent (line : Text) (location : Option Location)
  | invalidSyntax (rule : Text) (position : Nat) (remainder : Text)
  | writeOutput (path : Path) (cause : Cause)
  deriving DecidableEq, Repr

namespace Error

/-- The error located at a line, if it is about a line and not located yet. -/
def locate (location : Location) : Error → Error
  | duplicateRule name none => duplicateRule name (some location)
  | orphanedContent line none => orphanedContent line (some location)
  | e => e

/-- An error keeps the first location that it is given. -/
@[simp] theorem locate_locate (l m : Location) (e : Error) :
    (e.locate l).locate m = e.locate l := by
  cases e with
  | duplicateRule _ place => cases place <;> rfl
  | orphanedContent _ place => cases place <;> rfl
  | _ => rfl

/-- The end of a message that says where. -/
def placeText : Option Location → String
  | none => ""
  | some location => " (at " ++ location.message ++ ")"

/-- The message of the error, with the place if it is located. -/
def message : Error → String
  | missingRoot path => "Folder not found: " ++ path.shown
  | fileRead path cause => "Error reading file " ++ path.shown ++ ": " ++ cause.message
  | walk path cause => "Error walking " ++ path.shown ++ ": " ++ cause.message path
  | duplicateRule name location =>
    "Duplicate rule definition found: <" ++ .ofList name ++ ">" ++ placeText location
  | orphanedContent line location =>
    "Invalid BNF line (orphaned content): " ++ .ofList line ++ placeText location
  | invalidSyntax rule position remainder =>
    "Invalid syntax in rule <" ++ .ofList rule ++ "> at position " ++ toString position ++ ": ..."
      ++ .ofList remainder
  | writeOutput path cause => "Failed to write " ++ path.shown ++ ": " ++ cause.message

end Error

end Rulebook
