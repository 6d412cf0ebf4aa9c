import Rulebook.Text.Basic

/-!
# What the command line asks for

The arguments name one root and set options, each at most once. They are read from left to
right; a request for help or for the version counts as soon as it is read, and so does a
fault.
-/

namespace Rulebook.CommandLine

/-- The options that take a value. -/
inductive ValueOption where
  | output
  | config
  | extension
  deriving DecidableEq, Repr

/-- All options that take a value. -/
def ValueOption.all : List ValueOption := [.output, .config, .extension]

/-- The name of the option behind two dashes. -/
def ValueOption.longName : ValueOption → Text
  | output => "output".toList
  | config => "config".toList
  | extension => "extension".toList

/-- The letter of the option behind one dash. -/
def ValueOption.letter : ValueOption → Char
  | output => 'o'
  | config => 'c'
  | extension => 'e'

/-- What arguments have set. -/
structure Arguments where
  root : Option Text := none
  value : ValueOption → Option Text := fun _ => none
  verbose : Bool := false

/-- What to merge, and what the options say. -/
structure Run where
  root : Text
  output : Option Text := none
  config : Option Text := none
  extension : Option Text := none
  verbose : Bool := false
  deriving DecidableEq, Repr

/-- What the arguments ask for. -/
inductive Request where
  | run (r : Run)
  | help
  | version
  | invalid
  deriving DecidableEq, Repr

namespace Arguments

/-- The root set, unless it is set already. -/
def setRoot? (a : Arguments) (root : Text) : Option Arguments :=
  if a.root.isSome then none else some { a with root := some root }

/-- An option set, unless it is set already. -/
def setValue? (a : Arguments) (o : ValueOption) (v : Text) : Option Arguments :=
  if (a.value o).isSome then none
  else some { a with value := fun p => if p = o then some v else a.value p }

/-- The switch set, unless it is set already. -/
def setVerbose? (a : Arguments) : Option Arguments :=
  if a.verbose then none else some { a with verbose := true }

/-- The request that arguments make when all are read. -/
def request (a : Arguments) : Request :=
  match a.root with
  | some root => .run ⟨root, a.value .output, a.value .config, a.value .extension, a.verbose⟩
  | none => .invalid

end Arguments

/-- What options in one argument come to. -/
inductive Reading where
  /-- They are read. -/
  | done (a : Arguments)
  /-- The next argument is to be the value of an option. -/
  | wants (o : ValueOption) (a : Arguments)
  /-- Nothing more is to be read. -/
  | stop (r : Request)

/-- A change that may be impossible, as a reading. -/
def Reading.ofOption : Option Arguments → Reading
  | some a => done a
  | none => stop .invalid

/-- Reads letters after one dash : switches, then perhaps an option with its value, which may
follow an equals sign. -/
def readLetters (a : Arguments) : Text → Reading
  | [] => .done a
  | 'h' :: _ => .stop .help
  | 'V' :: _ => .stop .version
  | 'v' :: s =>
    match a.setVerbose? with
    | some a => readLetters a s
    | none => .stop .invalid
  | c :: s =>
    match ValueOption.all.find? fun o => o.letter = c with
    | none => .stop .invalid
    | some o =>
      match s with
      | [] => .wants o a
      | '=' :: v => .ofOption (a.setValue? o v)
      | v => .ofOption (a.setValue? o v)

/-- Reads what follows two dashes : a name, and perhaps an equals sign and a value. -/
def readName (a : Arguments) (s : Text) : Reading :=
  let (name, v) := match Text.cutAt? '=' s with
    | some (name, v) => (name, some v)
    | none => (s, none)
  match ValueOption.all.find? fun o => o.longName = name, v with
  | some o, some v => .ofOption (a.setValue? o v)
  | some o, none => .wants o a
  | none, some _ => .stop .invalid
  | none, none =>
    if name = "verbose".toList then .ofOption a.setVerbose?
    else if name = "help".toList then .stop .help
    else if name = "version".toList then .stop .version
    else .stop .invalid

/-- Whether an argument can be the value of the option before it. -/
def isValue : Text → Bool
  | '-' :: _ :: _ => false
  | _ => true

/-- Reads the arguments after those that have been read. After a lone pair of dashes, in
`plain` reading, no argument is an option. -/
def readArguments (plain : Bool) (a : Arguments) : List Text → Request
  | [] => a.request
  | arg :: rest =>
    let reading : Reading :=
      match plain, arg with
      | false, '-' :: '-' :: name => if name = [] then .done a else readName a name
      | false, '-' :: c :: letters => readLetters a (c :: letters)
      | _, root => .ofOption (a.setRoot? root)
    match reading with
    | .done a => readArguments (plain || arg = ['-', '-']) a rest
    | .stop r => r
    | .wants o a =>
      match rest with
      | v :: rest =>
        if isValue v then
          match a.setValue? o v with
          | some a => readArguments plain a rest
          | none => .invalid
        else .invalid
      | [] => .invalid

/-- What a list of arguments asks for. -/
def Request.ofArguments (arguments : List Text) : Request := readArguments false {} arguments

end Rulebook.CommandLine
