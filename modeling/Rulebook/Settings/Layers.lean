import Rulebook.Settings.Conversion
import Rulebook.Toml.Document
import Rulebook.Tree.Path

/-!
# Layers of settings

The settings are put together from layers : the defaults, then files one over the other,
then overrides. A file gives members of tables, which are set one by one; an override sets
a value at a path. What comes later wins. Of two names in one table that come to the same the one
that is come by later wins, so that the order in which a layer is gone through is part of it
(`Layer.read`), and the orders of the other passes are parameters (`Orders`).
-/

namespace Rulebook.Settings

/-! ## The lowest layer -/

/-- The members that give the default settings. -/
def defaultMembers : List (Text × Value) :=
  let d : Settings := {}
  let datum (x : Datum) : Value := .datum x none
  let fields (s : Section) (values : List Value) : Text × Value :=
    (s.name, .table (s.fields.zip values) none)
  [fields .source [datum (.string d.source.extension), datum (.boolean d.source.followLinks)],
   fields .parsing [datum (.boolean d.parsing.resetCursorPerFile)],
   fields .output [datum (.string d.output.path), datum (.integer d.output.indent)]]

/-! ## Files -/

/-- The parts of a path that name something : those that are neither empty nor a single dot. -/
def partsOf (path : Path) : List Name :=
  (Text.splitAt Path.slash path).filter fun part => part ≠ [] ∧ part ≠ [Path.dot]

/-- The path with `.toml` after its last name; a path without a last name has no such form. -/
def withExtension? (path : Path) : Option Path :=
  let isVoid (part : Name) : Bool := part = [] ∨ part = [Path.dot]
  let parts := ((Text.splitAt Path.slash path).reverse.dropWhile isVoid).reverse
  match parts.getLast? with
  | none | some [Path.dot, Path.dot] => none
  | some _ => some (Text.joinWith [Path.slash] parts ++ Path.of ".toml")

/-- The path of the file that a path names : its own, or the one with `.toml` after it. -/
def locate? (t : Tree) (path : Path) : Option Path :=
  if t.isFile path then some path
  else (withExtension? path).filter (Tree.isFile t)

/-- The parts of a path from one directory to what the parts lead to from the top : the parts that
both begin with are left out, and every other part of the directory is a step up. -/
def stepsFrom : (directory parts : List Name) → List Name
  | name :: directory, part :: parts =>
    if name = part then stepsFrom directory parts
    else List.replicate (directory.length + 1) [Path.dot, Path.dot] ++ part :: parts
  | directory, parts => List.replicate directory.length [Path.dot, Path.dot] ++ parts

/-- The name of a file in messages : its path from the working directory, without idle parts. -/
def fileName (t : Tree) (path : Path) : Path :=
  let home := t.home.reverse
  let parts := if path.head? = some Path.slash then partsOf path else home ++ partsOf path
  Text.joinWith [Path.slash] (stepsFrom home parts)

/-- The members that a file gives. -/
def readFile (t : Tree) (path : Path) : Except Error (List (Text × Value)) :=
  match locate? t path with
  | none => .error (.notFound path)
  | some found =>
    match t.read found with
    | .error _ => .error .notUtf8
    | .ok text =>
      match Toml.parse? text with
      | some (.table members) => .ok (Value.ofTomlMembers (some (fileName t found)) members)
      | some v => .error (.notATable (Value.ofToml none v).described (fileName t found))
      | none => .error (.malformed (fileName t found))

/-- A layer : a file that has to be there, or one that is left out if it cannot be read, and the
order in which its tables are gone through. -/
inductive Layer where
  | required (path : Path) (order : Order)
  | optional (path : Path) (order : Order)

/-- The members that a layer gives, in the order in which they are set. -/
def Layer.read (t : Tree) : Layer → Except Error (List (Text × Value))
  | required path order => order.arrange <$> readFile t path
  | optional path order =>
    match readFile t path with
    | .error (.notFound _) | .error .notUtf8 => .ok []
    | result => order.arrange <$> result

/-! ## Putting layers together -/

/-- The members with a value set at a path. -/
def setMember (path : List Step) (v : Value) (members : List (Text × Value)) :
    List (Text × Value) :=
  match Value.setAt v path (.table members none) with
  | .table members _ => members
  | _ => members

/-- The members with those of a layer set one after another, in the order that the layer has them
in. A name at the top of a layer is a path; one that is no path is a plain name. -/
def layer (incoming members : List (Text × Value)) : List (Text × Value) :=
  incoming.foldl
    (fun members (name, v) =>
      match Path.parse name with
      | .ok path => setMember path v members
      | .error _ => Value.assign name v members)
    members

/-- A value that is set at a path after all layers. -/
structure Override where
  path : List Step
  value : Value

/-- The override of the value at the path that a text names. -/
def Override.of (key : Text) (v : Value) : Except Error Override :=
  match Path.parse key with
  | .ok path => .ok ⟨path, v⟩
  | .error fault => .error (.badPath fault)

/-- The overrides that no later one with the same path takes the place of. -/
def lastOfEach (overrides : List Override) : List Override :=
  match overrides with
  | [] => []
  | o :: rest =>
    if rest.any fun later => later.path = o.path then lastOfEach rest else o :: lastOfEach rest

/-- The orders of the passes after the layers are read. -/
structure Orders where
  /-- The order of the members that the layers come to. -/
  merged : Order := .asWritten
  /-- The rank of an override by its path. -/
  override : List Step → Nat := fun _ => 0
  /-- The order in which the sections and their fields are read. -/
  reading : Order := .asWritten

/-- The members of all layers and overrides. The layers make a layer of their own, by now with
names in lower case, so that a name that is a path only in lower case is a path here. -/
def merge (o : Orders) (t : Tree) (layers : List Layer) (overrides : List Override) :
    Except Error (List (Text × Value)) := do
  let members ← layers.foldlM
    (fun members l => do return layer (← l.read t) members)
    defaultMembers
  return (byRank (fun v => o.override v.path) (lastOfEach overrides)).foldl
    (fun members v => setMember v.path v.value members)
    (layer (o.merged.arrange members) [])

/-- The settings that layers and overrides give; the paths of the overrides are read first. -/
def build (o : Orders) (t : Tree) (layers : List Layer) (overrides : List (Text × Value)) :
    Except Error Settings := do
  let overrides ← overrides.mapM fun (key, v) => Override.of key v
  ofMembers o.reading (← merge o t layers overrides)

end Rulebook.Settings
