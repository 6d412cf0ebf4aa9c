import Rulebook.Proofs.Descent
import Rulebook.Settings.Layers

/-!
# Where the name of a file leads

A message names a file by its path from the working directory. Pieces of a path that stand for
nothing can be left out (`Tree.follow_filter`), and from the working directory the steps up and down
lead where the path leads from the top (`Settings.follow_stepsFrom`). So the name leads to the
file, wherever its path starts (`Settings.resolve_fileName`), and two files of one name are one
file.
-/

namespace Rulebook

namespace Text

/-- Pieces that are joined come apart again, if the mark is in none of them. -/
theorem splitAt_joinWith {α : Type} [DecidableEq α] {mark : α} : ∀ {pieces : List (List α)},
    pieces ≠ [] → (∀ piece ∈ pieces, mark ∉ piece) → splitAt mark (joinWith [mark] pieces) = pieces
  | [], h, _ => absurd rfl h
  | [piece], _, h => splitAt_of_not_mem (h piece List.mem_cons_self)
  | piece :: next :: pieces, _, h => by
    obtain ⟨hpiece, hrest⟩ := List.forall_mem_cons.1 h
    rw [joinWith, List.append_assoc, List.singleton_append, splitAt_append,
      splitAt_of_not_mem hpiece, splitAt_joinWith (List.cons_ne_nil next pieces) hrest]
    · rfl
    · simp

end Text

namespace Tree

open Text

/-! ## Steps that stay where they are -/

/-- Steps lead to the same entry without those that stay where they are. -/
theorem follow_filter {t : Tree} {links : Nat} {place q : Place} {steps : List Step}
    (h : t.follow false links place steps = .ok (.taken q)) :
    t.follow false links place (steps.filter fun s => s ≠ .slash ∧ s ≠ .here) =
      .ok (.taken q) := by
  induction steps generalizing links place with
  | nil => exact h
  | cons step rest ih =>
    have hplace : t.get? place = some .directory := by
      by_contra hnot
      rw [follow_of_not_directory step hnot] at h
      cases h
    -- A step that is kept leads somewhere, with some links left for the steps after it.
    have hkept : (∀ rest, t.follow false links place (step :: rest) =
        t.follow false links place ([step] ++ rest)) →
        t.follow false links place (step :: rest.filter fun s => s ≠ .slash ∧ s ≠ .here) =
          .ok (.taken q) := by
      intro hcons
      rcases follow_append t links place [step] with ⟨left, p, -, hafter⟩ | ⟨-, hafter⟩
      · rw [hcons, hafter] at h ⊢
        exact ih h
      · by_cases hrest : rest = []
        · subst hrest
          exact h
        · obtain ⟨cause, hcause⟩ := hafter rest hrest
          cases (hcons rest).symm.trans h |>.symm.trans hcause
    cases step with
    | slash => exact ih (follow_slash hplace ▸ h)
    | here => exact ih (follow_here hplace ▸ h)
    | up => exact hkept fun _ => rfl
    | down name => exact hkept fun _ => rfl

/-- Steps up lead from a directory to one that it lies in. -/
theorem follow_replicate_up {t : Tree} {inner base : Place}
    (h : ∀ p, p <:+ inner ++ base → t.get? p = some .directory) (links : Nat) (rest : List Step) :
    t.follow false links (inner ++ base) (List.replicate inner.length .up ++ rest) =
      t.follow false links base rest := by
  induction inner with
  | nil => rfl
  | cons name inner ih =>
    simp only [List.cons_append, List.length_cons, List.replicate_succ] at h ⊢
    rw [follow_up (h _ List.suffix_rfl), List.tail_cons]
    exact ih fun p hp => h p (hp.trans (List.suffix_cons name _))

end Tree

namespace Settings

open Rulebook.Tree Rulebook.Text

/-- A step up, as it is written. -/
theorem map_ofPiece_replicate (n : Nat) :
    (List.replicate n [Path.dot, Path.dot]).map Tree.Step.ofPiece = List.replicate n .up :=
  List.map_replicate

/-- From a directory the steps to what parts lead to from further up lead to the same. -/
theorem follow_stepsFrom {t : Tree} {base : Place} {directory : List Name}
    (hproper : ∀ name ∈ directory, Proper name)
    (hhoused : ∀ p, p <:+ directory.reverse ++ base → t.get? p = some .directory) (links : Nat)
    (parts : List Name) :
    t.follow false links (directory.reverse ++ base)
        ((stepsFrom directory parts).map Tree.Step.ofPiece) =
      t.follow false links base (parts.map Tree.Step.ofPiece) := by
  fun_induction stepsFrom directory parts generalizing base with
  | case1 directory name parts ih =>
    obtain ⟨hname, hrest⟩ := List.forall_mem_cons.1 hproper
    have hplace : (name :: directory).reverse ++ base = directory.reverse ++ name :: base := by simp
    rw [hplace] at hhoused ⊢
    have hinner := hhoused (name :: base) (List.suffix_append _ _)
    have hbase := hhoused base ((List.suffix_cons name base).trans (List.suffix_append _ _))
    rw [ih hrest hhoused, List.map_cons, hname.ofPiece, follow_down hbase hinner (by simp)]
  | case2 name directory part parts hne =>
    have hups := follow_replicate_up hhoused links ((part :: parts).map Tree.Step.ofPiece)
    rw [List.map_append, map_ofPiece_replicate]
    simpa using hups
  | case3 directory parts _ =>
    have hups := follow_replicate_up hhoused links (parts.map Tree.Step.ofPiece)
    rw [List.map_append, map_ofPiece_replicate]
    simpa using hups

/-! ## The name of a file -/

/-- Without the steps that stay in place, a path is its parts. -/
theorem ofPath_filter (path : Path) :
    (Tree.Step.ofPath path).filter (fun s => s ≠ .slash ∧ s ≠ .here) =
      (partsOf path).map Tree.Step.ofPiece := by
  have hpiece : ∀ piece : Name,
      (Tree.Step.ofPiece piece ≠ .slash ∧ Tree.Step.ofPiece piece ≠ .here) ↔
      (piece ≠ [] ∧ piece ≠ [Path.dot]) := by
    intro piece
    unfold Tree.Step.ofPiece
    split <;> simp_all
  rw [Tree.Step.ofPath, List.filter_map, partsOf]
  refine congrArg (List.map Tree.Step.ofPiece) (List.filter_congr fun piece _ => ?_)
  exact decide_eq_decide.2 (hpiece piece)

/-- A part of a path is written as it is. -/
structure Part (part : Name) : Prop where
  ne_nil : part ≠ []
  no_slash : Path.slash ∉ part

/-- The parts of a path are neither empty nor hold a slash. -/
theorem part_of_mem_partsOf {path : Path} {part : Name} (h : part ∈ partsOf path) : Part part := by
  obtain ⟨hmem, hpart⟩ := List.mem_filter.1 h
  exact ⟨(of_decide_eq_true hpart).1, not_mem_of_mem_splitAt hmem⟩

theorem part_of_mem_stepsFrom {directory parts : List Name} (h : ∀ part ∈ parts, Part part) :
    ∀ part ∈ stepsFrom directory parts, Part part := by
  have hup : Part [Path.dot, Path.dot] := ⟨by simp, by decide⟩
  fun_induction stepsFrom directory parts with
  | case1 directory name parts ih => exact ih (List.forall_mem_cons.1 h).2
  | case2 name directory part parts hne =>
    intro other hother
    rcases List.mem_append.1 hother with hother | hother
    · exact List.eq_of_mem_replicate hother ▸ hup
    · exact h other hother
  | case3 directory parts _ =>
    intro other hother
    rcases List.mem_append.1 hother with hother | hother
    · exact List.eq_of_mem_replicate hother ▸ hup
    · exact h other hother

/-- A path that is put together from parts starts in the working directory and leads along them. -/
theorem find_joinWith {t : Tree} {parts : List Name} (hne : parts ≠ [])
    (h : ∀ part ∈ parts, Part part) : t.find false (joinWith [Path.slash] parts) =
      t.follow false maxLinks t.home (parts.map Tree.Step.ofPiece) := by
  have hsplit := splitAt_joinWith hne fun part hpart => (h part hpart).no_slash
  obtain ⟨c, rest, hpath, hc⟩ :
      ∃ c rest, joinWith [Path.slash] parts = c :: rest ∧ c ≠ Path.slash := by
    obtain ⟨part, parts, rfl⟩ := List.exists_cons_of_ne_nil hne
    obtain ⟨hpart, -⟩ := List.forall_mem_cons.1 h
    obtain ⟨c, name, rfl⟩ := List.exists_cons_of_ne_nil hpart.ne_nil
    have hc : c ≠ Path.slash := by
      rintro rfl
      exact hpart.no_slash List.mem_cons_self
    cases parts with
    | nil => exact ⟨c, name, rfl, hc⟩
    | cons next parts => exact ⟨c, _, rfl, hc⟩
  have hstart : start t.home (joinWith [Path.slash] parts) = t.home := by
    rw [hpath]
    simp [start, hc]
  rw [find_of_ne_nil (by simp [hpath]), hstart, Tree.Step.ofPath, hsplit]

/-- What lies in the directory is reached without steps up. -/
theorem stepsFrom_append (directory parts : List Name) :
    stepsFrom directory (directory ++ parts) = parts := by
  induction directory with
  | nil => cases parts <;> rfl
  | cons name directory ih => rw [List.cons_append, stepsFrom, if_pos rfl, ih]

/-- A file is named by the parts of its path, or by steps up and down to what they lead to from the
top. -/
theorem fileName_eq (t : Tree) (path : Path) :
    (start t.home path = t.home ∧ fileName t path = joinWith [Path.slash] (partsOf path)) ∨
    (start t.home path = [] ∧
      fileName t path = joinWith [Path.slash] (stepsFrom t.home.reverse (partsOf path))) := by
  by_cases h : path.head? = some Path.slash
  · obtain ⟨rest, rfl⟩ := List.head?_eq_some_iff.1 h
    exact Or.inr ⟨rfl, by simp only [fileName, if_pos h]⟩
  · have hstart : start t.home path = t.home := by
      unfold start
      split
      · exact absurd rfl h
      · rfl
    exact Or.inl ⟨hstart, by simp only [fileName, if_neg h, stepsFrom_append]⟩

/-- The name of a file leads to the file, wherever the path starts that it is found under. -/
theorem resolve_fileName {t : Tree} {path : Path} {q : Place} (hhoused : t.Housed)
    (hhome : ∀ name ∈ t.home, Proper name) (h : t.resolve path = .ok q)
    (hq : t.get? q ≠ some .directory) : t.resolve (fileName t path) = .ok q := by
  have hfollow := follow_filter (find_eq_ok_iff.1 (resolve_eq_ok_iff.1 h)).2
  rw [ofPath_filter] at hfollow
  have hparts : ∀ part ∈ partsOf path, Part part := fun part => part_of_mem_partsOf
  obtain ⟨parts, hname, hpart, hlead⟩ : ∃ parts, fileName t path = joinWith [Path.slash] parts ∧
      (∀ part ∈ parts, Part part) ∧
      t.follow false maxLinks t.home (parts.map Tree.Step.ofPiece) = .ok (.taken q) := by
    rcases fileName_eq t path with ⟨hstart, hname⟩ | ⟨hstart, hname⟩
    · exact ⟨_, hname, hparts, hstart ▸ hfollow⟩
    · refine ⟨_, hname, part_of_mem_stepsFrom hparts, ?_⟩
      have hproper : ∀ name ∈ t.home.reverse, Proper name := fun name hname =>
        hhome name (List.mem_reverse.1 hname)
      have htop : t.home.reverse.reverse ++ [] = t.home := by simp
      have hsteps := follow_stepsFrom hproper (fun p hp => hhoused p (htop ▸ hp)) maxLinks
        (partsOf path)
      rw [htop] at hsteps
      rw [hsteps, ← hstart, hfollow]
  have hne : parts ≠ [] := by
    rintro rfl
    obtain rfl : t.home = q := by simpa [follow_nil] using hlead
    exact hq (hhoused _ List.suffix_rfl)
  rw [resolve_eq_ok_iff, hname, find_joinWith hne hpart, hlead]

end Settings

end Rulebook
