import Rulebook.CommandLine.Outcome

/-!
# The command

The files that a command can reach are read into a tree, the command is carried out on that,
and the file that it changes is written. What is to be read is found in two steps : first
the settings files, then, when the settings are known, what lies below the root. The system gives
names as texts here, and settings are gone through as they are written.
-/

namespace Rulebook.CommandLine

/-- The path from the top to a place. -/
def pathOf (p : Place) : String :=
  Path.shown (Path.slash :: Text.joinWith [Path.slash] p.reverse)

/-- The place that a path from the top without links leads to. -/
def placeOf (path : Path) : Place :=
  ((Text.splitAt Path.slash path).filter (· ≠ [])).reverse

/-- The target noted for a link that leads nowhere : a name that no file has. -/
def deadEnd : Path := [0]

/-- A tree that is being read from the file system. -/
abbrev Snapshot := StateT Tree IO

namespace Snapshot

/-- Notes the directories on the way from the top to a place. -/
def noteDirectories (p : Place) : Snapshot Unit := do
  for n in List.range p.length do
    modify fun t => t.put (p.drop n) .directory

/-- Notes the file at a place, with its contents if they are wanted. -/
def noteFile (wanted : Bool) (p : Place) : Snapshot Unit := do
  let contents ← if wanted then IO.FS.readBinFile (pathOf p) else pure .empty
  modify fun t => t.put p (.file contents)

/-- Notes what lies at a place, and gives the place that it leads to. -/
def note (wanted : Bool) (p : Place) : Snapshot (Option Place) := do
  let path := (← IO.currentDir) / pathOf p
  match ← path.symlinkMetadata.toBaseIO with
  | .error _ => return none
  | .ok data =>
    match data.type with
    | .dir => modify fun t => t.put p .directory
    | .symlink =>
      match ← (IO.FS.realPath path).toBaseIO with
      | .error _ =>
        modify fun t => t.put p (.link deadEnd)
        return none
      | .ok target =>
        let target := Path.of target.toString
        let q := placeOf target
        modify fun t => t.put p (.link target)
        noteDirectories q.tail
        if ← path.isDir then noteDirectories q else noteFile wanted q
        return some q
    | _ => noteFile wanted p
    return some p

/-- Notes what steps from a place lead along, and the contents of a file if they are wanted. -/
def noteAlong (wanted : Bool) (p : Place) : List Tree.Step → Snapshot Unit
  | [] => return
  | .slash :: rest | .here :: rest => noteAlong wanted p rest
  | .up :: rest => noteAlong wanted p.tail rest
  | .down name :: rest => do
    match ← note wanted (name :: p) with
    | some q => noteAlong wanted q rest
    | none => return

/-- Notes what a path leads along from the working directory. -/
def notePath (wanted : Bool) (path : Path) : Snapshot Unit := do
  noteAlong wanted (Tree.start (← get).home path) (Tree.Step.ofPath path)

/-- Notes what lies below a directory, behind links as well if they are followed, with the contents
of the files that are selected. -/
partial def noteBelow (s : SourceSettings) (p : Place) : Snapshot Unit := do
  for item in ← ((← IO.currentDir) / pathOf p).readDir do
    let name := Path.of item.fileName
    let known := ((← get).get? (name :: p)).isSome
    if let some q ← note (s.selects name) (name :: p) then
      let entered := q = name :: p ∨ (s.followLinks ∧ !known)
      if entered ∧ (← get).get? q = some .directory then noteBelow s q

/-- Notes what a run can reach. -/
def noteRun (r : Run) : Snapshot Unit := do
  noteDirectories (← get).home
  for path in localSettings :: r.config.toList.map Text.bytes do
    notePath true path
    if let some path := Settings.withExtension? path then notePath true path
  notePath false r.rootPath
  if let .ok s := r.settings {} (← get) then
    if let .ok p := (← get).resolve r.rootPath then noteBelow s.source p
    notePath false s.output.path.bytes

end Snapshot

/-- Carries a request out in the working directory. -/
def Request.carryOut (request : Request) : IO UInt32 := do
  let mut t := Tree.empty
  if let .run r := request then
    if r.verbose then IO.eprintln ("merging grammar files below " ++ String.ofList r.root)
    let home := placeOf (.of (← IO.currentDir).toString)
    t := (← (Snapshot.noteRun r).run ⟨[], home⟩).2
  let outcome := request.perform {} t
  for (p, contents) in t.changedFiles outcome.tree do
    IO.FS.writeBinFile (pathOf p) contents
  IO.print outcome.output
  if let some report := outcome.report then IO.eprintln report
  if outcome.code = 2 then IO.eprintln "error: invalid arguments; --help tells the valid ones"
  return outcome.code.toUInt32

end Rulebook.CommandLine

/-- Merges the grammar files that the arguments name. -/
def main (arguments : List String) : IO UInt32 :=
  (Rulebook.CommandLine.Request.ofArguments (arguments.map String.toList)).carryOut
