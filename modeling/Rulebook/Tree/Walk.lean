import Rulebook.Tree.Path

/-!
# Walking a directory

`Tree.walk` lists what lies below a directory, depth first and every directory in increasing
order of names. A link is an entry like a file, unless links are followed : then one that
leads to a directory is entered, one that leads to a directory on the way from the root is
reported with the path under which the walk came by it, and one that leads nowhere is
reported too. After a report the walk goes on with the next name.

The walk ends : a directory that is entered through a link is not among those on the way
from the root (`unvisited_cons_lt`), and from one such directory to the next the places
grow longer, which they cannot do for ever (`length_le_depth`).
-/

namespace Rulebook.Tree

/-- What the walk comes by : an entry that is no entered directory, by its path and name, or
a path at which it cannot go on. -/
inductive Found where
  | entry (path : Path) (name : Name)
  | failed (path : Path) (cause : WalkCause)
  deriving DecidableEq, Repr

/-- The directories on the way from the root, the innermost first, with the paths under which
the walk came by them. -/
abbrev Chain := List (Place × Path)

/-! ## Why the walk ends -/

/-- The length of the longest place. -/
def depth (t : Tree) : Nat := t.entries.foldr (fun (p, _) n => max p.length n) 0

theorem length_le_depth {t : Tree} {p : Place} {e : Entry} (h : t.get? p = some e) :
    p.length ≤ t.depth := by
  by_cases hp : p = []
  · simp [hp]
  · have key : ∀ entries : List (Place × Entry), (p, e) ∈ entries →
        p.length ≤ entries.foldr (fun (p, _) n => max p.length n) 0 := by
      intro entries hmem
      induction entries with
      | nil => simp at hmem
      | cons old rest ih =>
        rw [List.foldr_cons]
        rcases List.mem_cons.1 hmem with rfl | hmem
        · exact Nat.le_max_left _ _
        · exact Nat.le_trans (ih hmem) (Nat.le_max_right _ _)
    exact key t.entries (mem_of_get? hp h)

/-- How many places of the tree are not on the chain. -/
def unvisited (t : Tree) (chain : Chain) : Nat :=
  ([] :: t.entries.map Prod.fst).countP fun p => !chain.any (·.1 = p)

/-- A stricter condition that one element fails is met by fewer elements. -/
theorem countP_lt {α : Type} {l : List α} {p q : α → Bool} {a : α} (hmem : a ∈ l)
    (hpq : ∀ b, q b = true → p b = true) (hp : p a = true) (hq : q a = false) :
    l.countP q < l.countP p := by
  induction l with
  | nil => simp at hmem
  | cons b l ih =>
    have hle : l.countP q ≤ l.countP p := List.countP_mono_left fun b _ => hpq b
    rcases List.mem_cons.1 hmem with rfl | hmem
    · simp only [List.countP_cons, hp, hq, if_true, Bool.false_eq_true, if_false]
      omega
    · have hlt := ih hmem
      by_cases hb : q b = true
      · simp only [List.countP_cons, hb, hpq b hb, if_true]
        omega
      · simp only [List.countP_cons, hb, if_false, Bool.false_eq_true]
        omega

theorem unvisited_cons_le (t : Tree) (chain : Chain) (link : Place × Path) :
    t.unvisited (link :: chain) ≤ t.unvisited chain := by
  refine List.countP_mono_left fun p _ hp => ?_
  simp only [List.any_cons, Bool.not_or, Bool.and_eq_true] at hp
  exact hp.2

/-- A chain that grows by a new place leaves fewer places to visit. -/
theorem unvisited_cons_lt {t : Tree} {chain : Chain} {p : Place} {e : Entry} (path : Path)
    (h : t.get? p = some e) (hnew : chain.find? (·.1 = p) = none) :
    t.unvisited ((p, path) :: chain) < t.unvisited chain := by
  have hmem : p ∈ [] :: t.entries.map Prod.fst := by
    by_cases hp : p = []
    · simp [hp]
    · exact List.mem_cons_of_mem _ (List.mem_map_of_mem (mem_of_get? hp h))
  refine countP_lt hmem (fun q hq => ?_) (by simpa using hnew) (by simp)
  simp only [List.any_cons, Bool.not_or, Bool.and_eq_true] at hq
  exact hq.2

/-- From a directory to what lies in it the places grow longer, and no place is unvisited again. -/
theorem measure_lt_of_get? {t : Tree} {chain : Chain} {place : Place} {name : Name} {e : Entry}
    (path : Path) (h : t.get? (name :: place) = some e) :
    Prod.Lex (· < ·) (· < ·)
      (t.unvisited ((name :: place, path) :: chain), t.depth - (name :: place).length)
      (t.unvisited chain, t.depth - place.length) := by
  have hdepth := length_le_depth h
  rw [List.length_cons] at hdepth ⊢
  rcases Nat.lt_or_eq_of_le (unvisited_cons_le t chain (name :: place, path)) with hlt | heq
  · exact Prod.Lex.left _ _ hlt
  · rw [heq]
    exact Prod.Lex.right _ (by omega)

/-! ## The walk -/

/-- What lies below the directory that was entered last. -/
def walkBelow (t : Tree) (followLinks : Bool) (chain : Chain) (place : Place) (path : Path) :
    List Found :=
  (t.names place).flatMap fun name =>
    let inner := join path name
    match _h : t.get? (name :: place) with
    | none => []
    | some .directory =>
      t.walkBelow followLinks ((name :: place, inner) :: chain) (name :: place) inner
    | some (.file _) => [.entry inner name]
    | some (.link _) =>
      if followLinks then
        match t.resolve inner with
        | .error cause => [.failed inner (.system cause)]
        | .ok target =>
          match _h : t.get? target with
          | some .directory =>
            match _hnew : chain.find? (·.1 = target) with
            | some (_, ancestor) => [.failed inner (.loop ancestor)]
            | none => t.walkBelow followLinks ((target, inner) :: chain) target inner
          | _ => [.entry inner name]
      else [.entry inner name]
termination_by (t.unvisited chain, t.depth - place.length)
decreasing_by
  · have hle := unvisited_cons_le t chain (name :: place, join path name)
    have hdepth := length_le_depth _h
    simp only [List.length_cons] at hdepth ⊢
    rcases Nat.lt_or_eq_of_le hle with hlt | heq
    · exact Prod.Lex.left _ _ hlt
    · rw [heq]
      exact Prod.Lex.right _ (by omega)
  · exact Prod.Lex.left _ _ (unvisited_cons_lt _ _h _hnew)

/-- The walk through a directory, name by name. -/
theorem walkBelow_eq (t : Tree) (followLinks : Bool) (chain : Chain) (place : Place) (path : Path) :
    t.walkBelow followLinks chain place path = (t.names place).flatMap fun name =>
      match t.get? (name :: place) with
      | none => []
      | some .directory =>
        t.walkBelow followLinks ((name :: place, join path name) :: chain) (name :: place)
          (join path name)
      | some (.file _) => [.entry (join path name) name]
      | some (.link _) =>
        if followLinks then
          match t.resolve (join path name) with
          | .error cause => [.failed (join path name) (.system cause)]
          | .ok target =>
            match t.get? target with
            | some .directory =>
              match chain.find? (·.1 = target) with
              | some (_, ancestor) => [.failed (join path name) (.loop ancestor)]
              | none =>
                t.walkBelow followLinks ((target, join path name) :: chain) target (join path name)
            | _ => [.entry (join path name) name]
        else [.entry (join path name) name] := by
  rw [walkBelow]
  refine congrArg (List.flatMap · (t.names place)) (funext fun name => ?_)
  dsimp only
  split
  · next h => rw [h]
  · next h => rw [h]
  · next h => rw [h]
  · next h =>
    rw [h]
    cases followLinks with
    | false => rfl
    | true =>
      cases t.resolve (join path name) with
      | error cause => rfl
      | ok target =>
        simp only [if_true]
        split
        · next hdirectory =>
          rw [hdirectory]
          split
          · next hfound => rw [hfound]
          · next hfound => rw [hfound]
        · next hother =>
          split
          · next hdirectory => exact absurd hdirectory hother
          · rfl

/-- What lies below the directory that the path leads to. -/
def walk (t : Tree) (followLinks : Bool) (root : Path) : List Found :=
  match t.resolve root with
  | .ok place => t.walkBelow followLinks [(place, root)] place root
  | .error _ => []

end Rulebook.Tree
