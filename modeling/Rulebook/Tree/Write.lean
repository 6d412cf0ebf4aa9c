import Rulebook.Tree.Path

/-!
# Writing files

A file is written in two steps : it is opened, and is empty from then on, and then it takes the
bytes. The device that the file lies on may refuse the first step, and the second one may break off
and leave a part of the bytes (`Tree.Device`). So what a write leaves behind is told along with how
it ends, whether it fails or not (`Tree.write`). `Tree.create` builds trees.
-/

namespace Rulebook.Tree

open Text

/-- What a device does with files that are written. -/
structure Device where
  /-- Why no file is opened at the place, if none is. -/
  refuses : Place → Option Cause := fun _ => none
  /-- After how many of the bytes writing to the place breaks off, and why, if it does. -/
  breaksOff : Place → ByteArray → Option (Nat × Cause) := fun _ _ => none

/-- The device that takes whatever is written. -/
def Device.sound : Device := {}

/-- How many bytes a path is too long with. -/
def maxPath : Nat := 4096

/-- Opens the file that a path leads to, or a new one at a free name : its place, and the tree in
which it is empty. -/
def openFile (t : Tree) (d : Device) (path : Path) : Except Cause (Place × Tree) :=
  if 0 ∈ path then .error .nullByte
  else if maxPath ≤ path.length then .error .nameTooLong
  else
    match t.find true path with
    | .error cause => .error cause
    | .ok spot =>
      if t.get? spot.place = some .directory then .error .isDirectory
      else
        match d.refuses spot.place with
        | some cause => .error cause
        | none => .ok (spot.place, t.put spot.place (.file .empty))

/-- Writes the file that a path leads to, or a new one at a free name : how that ends, and the tree
afterwards. -/
def write (t : Tree) (d : Device) (path : Path) (contents : ByteArray) :
    Except Cause Unit × Tree :=
  match t.openFile d path with
  | .error cause => (.error cause, t)
  | .ok (place, opened) =>
    match d.breaksOff place contents with
    | none => (.ok (), opened.put place (.file contents))
    | some (count, cause) => (.error cause, opened.put place (.file (contents.extract 0 count)))

/-! ## Building a tree -/

/-- The tree with a directory at the path and at every part of it that leads nowhere. -/
def makeDirectories (t : Tree) (path : Path) : Tree :=
  let parts := splitAt Path.slash path
  (List.range parts.length).foldl
    (fun t n =>
      match t.find false (joinWith [Path.slash] (parts.take (n + 1))) with
      | .ok (.free place) => t.put place .directory
      | _ => t)
    t

/-- The path without its last part. -/
def parent (path : Path) : Path := joinWith [Path.slash] (splitAt Path.slash path).dropLast

/-- The tree with an entry created at a path, in a directory that is made if need be. A link
needs a free name; a file is written through links. -/
def create (t : Tree) (path : Path) (e : Entry) : Tree :=
  match e with
  | .directory => t.makeDirectories path
  | .file contents => ((t.makeDirectories (parent path)).write .sound path contents).2
  | .link target =>
    let t := t.makeDirectories (parent path)
    match t.find false path with
    | .ok (.free place) => t.put place (.link target)
    | _ => t

end Rulebook.Tree
