import Rulebook.Error
import Rulebook.Tree.Basic

/-!
# Paths in a file tree

A path is followed step by step from the working directory, or from the top if it starts
with a slash. Every step needs a directory to start from : `..` leads to the directory
that contains it, and a name that is a link leads on along the target of the link, along
forty links at most. `Tree.find` says where a path leads, to an entry or to a free name in
a directory, and `Tree.read` gives the text of the file there. A path that is read is taken to be
shorter than the longest that the system takes (`Tree.maxPath`).
-/

namespace Rulebook.Tree

open Text

/-- One step of a path. -/
inductive Step where
  /-- Nothing between two slashes, or after the last one. -/
  | slash
  | here
  | up
  | down (name : Name)
  deriving DecidableEq, Repr

namespace Step

/-- The step that a piece of a path between slashes stands for. -/
def ofPiece : Name → Step
  | [] => slash
  | [Path.dot] => here
  | [Path.dot, Path.dot] => up
  | name => down name

/-- The steps of a path. -/
def ofPath (path : Path) : List Step := (splitAt Path.slash path).map ofPiece

end Step

/-- Where a path leads : to an entry, or to a name that a directory does not have. -/
inductive Spot where
  | taken (place : Place)
  | free (place : Place)
  deriving DecidableEq, Repr

/-- The place that a path leads to, whether something lies there or not. -/
def Spot.place : Spot → Place
  | taken place | free place => place

/-- How many links one path may lead along. -/
def maxLinks : Nat := 40

/-- How many bytes a name may have. -/
def maxName : Nat := 255

/-- Where a path that is read in a directory starts. -/
def start (directory : Place) : Path → Place
  | Path.slash :: _ => []
  | _ => directory

/-- Where a name that a directory does not have leads, with the steps after it : it may be given to
a file. -/
def absent (place : Place) (name : Name) (rest : List Step) : Except Cause Spot :=
  if maxName < name.length then .error .nameTooLong
  else if rest = [] then .ok (.free (name :: place))
  else .error .notFound

/-- A name that is not there can be created as the last of a path, if it is not too long. -/
theorem absent_eq_ok_iff {place : Place} {name : Name} {rest : List Step} {spot : Spot} :
    absent place name rest = .ok spot ↔
      name.length ≤ maxName ∧ rest = [] ∧ .free (name :: place) = spot := by
  unfold absent
  split
  · simp; omega
  · split
    · next hlength hrest => simp [Nat.le_of_not_lt hlength, hrest]
    · next hrest => simp [hrest]

/-- There is no entry where a directory does not have the name. -/
theorem absent_ne_taken (place : Place) (name : Name) (rest : List Step) (q : Place) :
    absent place name rest ≠ .ok (.taken q) := by
  simp [absent_eq_ok_iff]

/-- Steps after a name that is not there lead nowhere. -/
theorem exists_absent_eq_error (place : Place) (name : Name) {rest : List Step} (h : rest ≠ []) :
    ∃ cause, absent place name rest = .error cause := by
  rw [absent, if_neg h]
  split
  · exact ⟨_, rfl⟩
  · exact ⟨_, rfl⟩

/-- Where steps lead from a place along at most `links` links. A file that is to be created
must not be named with a slash after it. -/
def follow (t : Tree) (creating : Bool) (links : Nat) (place : Place) :
    List Step → Except Cause Spot
  | [] => .ok (.taken place)
  | step :: rest =>
    if t.get? place ≠ some .directory then .error .notDirectory
    else
      match step with
      | .slash | .here => t.follow creating links place rest
      | .up => t.follow creating links place.tail rest
      | .down name =>
        if creating ∧ rest ≠ [] ∧ rest.all (· = .slash) then .error .isDirectory
        else
          match t.get? (name :: place) with
          | none => absent place name rest
          | some (.link target) =>
            match links with
            | 0 => .error .tooManyLinks
            | links + 1 =>
              t.follow creating links (start place target) (Step.ofPath target ++ rest)
          | some _ => t.follow creating links (name :: place) rest
termination_by steps => (links, steps.length)

section Steps

variable {t : Tree} {creating : Bool} {links : Nat} {place : Place} {rest : List Step}

theorem follow_nil : t.follow creating links place [] = .ok (.taken place) := by
  rw [follow]

theorem follow_of_not_directory (step : Step) (h : t.get? place ≠ some .directory) :
    t.follow creating links place (step :: rest) = .error .notDirectory := by
  rw [follow.eq_def]
  exact if_pos h

theorem follow_slash (h : t.get? place = some .directory) :
    t.follow creating links place (.slash :: rest) = t.follow creating links place rest := by
  rw [follow, if_neg (not_not_intro h)]

theorem follow_here (h : t.get? place = some .directory) :
    t.follow creating links place (.here :: rest) = t.follow creating links place rest := by
  rw [follow, if_neg (not_not_intro h)]

theorem follow_up (h : t.get? place = some .directory) :
    t.follow creating links place (.up :: rest) = t.follow creating links place.tail rest := by
  rw [follow, if_neg (not_not_intro h)]

/-- A step down to an entry that is no link. -/
theorem follow_down {name : Name} {e : Entry} (h : t.get? place = some .directory)
    (he : t.get? (name :: place) = some e) (hlink : ∀ target, e ≠ .link target) :
    t.follow false links place (.down name :: rest) =
      t.follow false links (name :: place) rest := by
  rw [follow, if_neg (not_not_intro h)]
  cases e with
  | link target => exact absurd rfl (hlink target)
  | _ => simp [he]

/-- A step down to a link goes on along its target, and takes one of the links that are
allowed. -/
theorem follow_down_link {name : Name} {target : Path} (h : t.get? place = some .directory)
    (he : t.get? (name :: place) = some (.link target)) :
    t.follow false (links + 1) place (.down name :: rest) =
      t.follow false links (start place target) (Step.ofPath target ++ rest) := by
  rw [follow, if_neg (not_not_intro h)]
  simp [he]

theorem follow_down_none {name : Name} (h : t.get? place = some .directory)
    (he : t.get? (name :: place) = none) :
    t.follow false links place (.down name :: rest) = absent place name rest := by
  rw [follow, if_neg (not_not_intro h)]
  simp [he]

/-- A link that is one too many. -/
theorem follow_down_link_zero {name : Name} {target : Path} (h : t.get? place = some .directory)
    (he : t.get? (name :: place) = some (.link target)) :
    t.follow false 0 place (.down name :: rest) = .error .tooManyLinks := by
  rw [follow, if_neg (not_not_intro h)]
  simp [he]

end Steps

/-- A place that is free has no entry. -/
theorem get?_of_follow_free {t : Tree} {creating : Bool} {links : Nat} {place p : Place}
    {steps : List Step} (h : t.follow creating links place steps = .ok (.free p)) :
    t.get? p = none := by
  fun_induction t.follow creating links place steps with
  | case3 _ _ _ _ ih | case4 _ _ _ _ ih | case5 _ _ _ _ ih => exact ih h
  | case7 links place _ _ name _ hnone =>
    obtain ⟨-, -, hspot⟩ := absent_eq_ok_iff.1 h
    exact Spot.free.inj hspot ▸ hnone
  | case9 _ _ _ _ _ _ _ _ ih => exact ih h
  | case10 _ _ _ _ _ _ _ _ _ ih => exact ih h
  | _ => simp at h

/-- Where a path leads from the working directory. -/
def find (t : Tree) (creating : Bool) (path : Path) : Except Cause Spot :=
  match path with
  | [] => .error .notFound
  | path => t.follow creating maxLinks (start t.home path) (Step.ofPath path)

theorem find_of_ne_nil {path : Path} (h : path ≠ []) (t : Tree) (creating : Bool) :
    t.find creating path = t.follow creating maxLinks (start t.home path) (Step.ofPath path) := by
  cases path with
  | nil => exact absurd rfl h
  | cons c path => rfl

/-- A path is found by its steps, unless it is empty. -/
theorem find_eq_ok_iff {t : Tree} {creating : Bool} {path : Path} {spot : Spot} :
    t.find creating path = .ok spot ↔ path ≠ [] ∧
      t.follow creating maxLinks (start t.home path) (Step.ofPath path) = .ok spot := by
  cases path with
  | nil => simp [find]
  | cons c path => rw [find_of_ne_nil (by simp), and_iff_right (by simp)]

/-- The place of the entry that a path leads to. -/
def resolve (t : Tree) (path : Path) : Except Cause Place :=
  match t.find false path with
  | .ok (.taken place) => .ok place
  | .ok (.free _) => .error .notFound
  | .error cause => .error cause

theorem resolve_eq_ok_iff {t : Tree} {path : Path} {place : Place} :
    t.resolve path = .ok place ↔ t.find false path = .ok (.taken place) := by
  cases hfind : t.find false path with
  | error cause => simp [resolve, hfind]
  | ok spot => cases spot <;> simp [resolve, hfind]

/-- The entry that a path leads to. -/
def lookUp (t : Tree) (path : Path) : Except Cause Entry := do
  match t.get? (← t.resolve path) with
  | some e => return e
  | none => throw .notFound

theorem lookUp_eq_ok_iff {t : Tree} {path : Path} {e : Entry} :
    t.lookUp path = .ok e ↔ ∃ place, t.resolve path = .ok place ∧ t.get? place = some e := by
  cases hplace : t.resolve path with
  | error cause => simp [lookUp, hplace, bind, Except.bind]
  | ok place =>
    cases he : t.get? place <;>
      simp [lookUp, hplace, he, bind, Except.bind, pure, Except.pure, throw, throwThe,
        MonadExceptOf.throw]

/-- Whether a path leads to a directory. -/
def isDirectory (t : Tree) (path : Path) : Bool :=
  match t.lookUp path with
  | .ok .directory => true
  | _ => false

/-- Whether a path leads to a regular file. -/
def isFile (t : Tree) (path : Path) : Bool :=
  match t.lookUp path with
  | .ok (.file _) => true
  | _ => false

theorem isDirectory_iff {t : Tree} {path : Path} :
    t.isDirectory path = true ↔ t.lookUp path = .ok .directory := by
  unfold isDirectory
  split <;> simp_all

theorem isFile_iff {t : Tree} {path : Path} :
    t.isFile path = true ↔ ∃ contents, t.lookUp path = .ok (.file contents) := by
  unfold isFile
  split <;> simp_all

/-- The text of the file that a path leads to. -/
def read (t : Tree) (path : Path) : Except Cause Text := do
  match ← t.lookUp path with
  | .file contents =>
    match decode? contents with
    | some text => return text
    | none => throw .notUtf8
  | _ => throw .isDirectory

/-- A file is read if its bytes are those of a text. -/
theorem read_of_lookUp {t : Tree} {path : Path} {contents : ByteArray}
    (h : t.lookUp path = .ok (.file contents)) :
    t.read path =
      match decode? contents with
      | some text => .ok text
      | none => .error .notUtf8 := by
  rw [read, h]
  rfl

/-- A path made longer by a name. -/
def join (path name : Path) : Path :=
  if path = [] ∨ path.getLast? = some Path.slash then path ++ name else path ++ Path.slash :: name

end Rulebook.Tree
