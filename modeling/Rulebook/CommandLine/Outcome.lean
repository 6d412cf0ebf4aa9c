import Rulebook.CommandLine.Request
import Rulebook.Grammar.Save
import Rulebook.Settings.Layers
import Rulebook.Source

/-!
# What a command does

A run goes through four stages : it checks that the root is a directory, puts the settings
together, loads the grammar, and writes the document. The first stage that fails ends it. Every
run has a tree afterwards, whatever it ends with (`Run.execute`). What a run does not determine by
itself are its circumstances : the orders in which the tables of settings are gone through, and what
the device does that takes the document (`Circumstances`).
-/

namespace Rulebook.CommandLine

/-- The settings file that is read if the working directory has one. -/
def localSettings : Path := .of "bnf.toml"

/-- What differs from one run to another although the arguments and the tree are the same. -/
structure Circumstances where
  /-- The order in which the tables of the local settings file are gone through. -/
  localOrder : Settings.Order := .asWritten
  /-- The order in which the tables of the settings file that is named are gone through. -/
  configOrder : Settings.Order := .asWritten
  orders : Settings.Orders := {}
  device : Tree.Device := .sound

namespace Run

/-- The path of the root. -/
def rootPath (r : Run) : Path := r.root.bytes

/-- The files that settings are read from. -/
def layers (r : Run) (c : Circumstances) : List Settings.Layer :=
  .optional localSettings c.localOrder ::
    r.config.toList.map fun path => .required path.bytes c.configOrder

/-- The settings that options give. -/
def overrides (r : Run) : List (Text × Settings.Value) :=
  let string (key : String) (v : Text) : Text × Settings.Value :=
    (key.toList, .datum (.string v) none)
  r.extension.toList.map (string "source.extension") ++ r.output.toList.map (string "output.path")

end Run

/-- Why a run failed. -/
inductive Failure where
  | merging (e : Error)
  | settings (e : Settings.Error)
  deriving DecidableEq, Repr

/-- What is reported of a failure. -/
def Failure.message : Failure → String
  | merging e => e.message
  | settings e => "Invalid configuration: " ++ e.message

/-- The settings of a run whose root is a directory. -/
def Run.settings (r : Run) (c : Circumstances) (t : Tree) : Except Failure Settings :=
  if t.isDirectory r.rootPath then
    match Settings.build c.orders t (r.layers c) r.overrides with
    | .ok s => .ok s
    | .error e => .error (.settings e)
  else .error (.merging (.missingRoot r.rootPath))

/-- How a run ends. -/
inductive Ending where
  /-- The document stands at the path. -/
  | done (path : Text)
  | failed (failure : Failure)
  /-- The run broke off in the middle of its work. -/
  | aborted
  deriving DecidableEq, Repr

/-- Loads the grammar below the root and writes its document : how that ends, and the tree
afterwards. -/
def Run.execute (r : Run) (c : Circumstances) (t : Tree) : Ending × Tree :=
  match r.settings c t with
  | .error failure => (.failed failure, t)
  | .ok s =>
    match Grammar.load t s.source s.parsing r.rootPath with
    | .error e => (.failed (.merging e), t)
    | .ok g =>
      match g.save t c.device s.output with
      | (.saved, after) => (.done s.output.path, after)
      | (.failed e, after) => (.failed (.merging e), after)
      | (.aborted, after) => (.aborted, after)

/-- What a command leaves behind : its exit code, what it prints, what it reports if it fails,
and the tree. -/
structure Outcome where
  code : Nat
  output : String
  report : Option String
  tree : Tree

/-- What is printed for the version. -/
def versionText : String := "bnf-merge 0.1.0\n"

/-- The lines of the help text. -/
def helpLines : List String :=
  ["Convert and merge BNF files to JSON",
   "",
   "Usage: bnf-merge [OPTIONS] <root>",
   "",
   "Arguments:",
   "  <root>  Target folder containing grammar files",
   "",
   "Options:",
   "  -o, --output <output>        Output JSON file path (default: grammar.json)",
   "  -c, --config <config>        TOML configuration file layered over the built-in defaults",
   "  -e, --extension <extension>  File extension selecting grammar files (default: bnf)",
   "  -v, --verbose                Log progress to stderr",
   "  -h, --help                   Print help",
   "  -V, --version                Print version"]

/-- The help text. -/
def helpText : String := String.join (helpLines.map (· ++ "\n"))

/-- What a run that ends so prints and reports, and its exit code. -/
def Ending.outcome (after : Tree) : Ending → Outcome
  | done path => ⟨0, "Successfully converted BNF files to " ++ .ofList path ++ "\n", none, after⟩
  | failed failure => ⟨1, "", some ("Error: " ++ failure.message), after⟩
  | aborted => ⟨101, "", none, after⟩

/-- Carries a request out. -/
def Request.perform (c : Circumstances) (t : Tree) : Request → Outcome
  | help => ⟨0, helpText, none, t⟩
  | version => ⟨0, versionText, none, t⟩
  | invalid => ⟨2, "", none, t⟩
  | run r => (r.execute c t).1.outcome (r.execute c t).2

/-- What a command with these arguments does to a tree. -/
def perform (c : Circumstances) (t : Tree) (arguments : List Text) : Outcome :=
  (Request.ofArguments arguments).perform c t

end Rulebook.CommandLine
