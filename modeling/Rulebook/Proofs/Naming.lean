import Rulebook.Proofs.Writing

/-!
# Names in a tree

An entry has a name that is not empty, stands for no other place, as `..` does, and has no slash
in it (`Tree.Proper`). A path is split at slashes and its pieces `.` and `..` are no names, so
whatever is created by a path has such a name, also behind links, and a tree that is built from
the empty one has no others (`Tree.WellNamed.create`).
-/

namespace Rulebook

namespace Text

theorem not_mem_of_mem_splitAt {α : Type} [DecidableEq α] {mark : α} {s piece : List α}
    (h : piece ∈ splitAt mark s) : mark ∉ piece := by
  induction s generalizing piece with
  | nil => simp_all [splitAt]
  | cons c s ih =>
    rw [splitAt] at h
    split at h
    · rcases List.mem_cons.1 h with rfl | h
      · simp
      · exact ih h
    · next hc =>
      cases hs : splitAt mark s with
      | nil => exact absurd hs (splitAt_ne_nil mark s)
      | cons first pieces =>
        rw [hs] at h ih
        rcases List.mem_cons.1 h with rfl | h
        · have hfirst := ih List.mem_cons_self
          simp [Ne.symm hc, hfirst]
        · exact ih (List.mem_cons_of_mem _ h)

end Text

namespace Tree

open Text

/-- A name that an entry of a directory can have. -/
structure Proper (name : Name) : Prop where
  ne_nil : name ≠ []
  ne_here : name ≠ [Path.dot]
  ne_up : name ≠ [Path.dot, Path.dot]
  no_slash : Path.slash ∉ name

instance (name : Name) : Decidable (Proper name) :=
  decidable_of_iff
    (name ≠ [] ∧ name ≠ [Path.dot] ∧ name ≠ [Path.dot, Path.dot] ∧ Path.slash ∉ name)
    ⟨fun ⟨h₁, h₂, h₃, h₄⟩ => ⟨h₁, h₂, h₃, h₄⟩, fun ⟨h₁, h₂, h₃, h₄⟩ => ⟨h₁, h₂, h₃, h₄⟩⟩

/-- All entries have names that entries can have, and so has what leads to the working directory. -/
structure WellNamed (t : Tree) : Prop where
  entries : ∀ p e, t.get? p = some e → ∀ name ∈ p, Proper name
  home : ∀ name ∈ t.home, Proper name

/-- The working directory is a directory, and so is all that it lies in, up to the top. -/
def Housed (t : Tree) : Prop := ∀ p, p <:+ t.home → t.get? p = some .directory

/-- A piece of a path stands for a name if it stands for nothing else. -/
theorem Step.ofPiece_eq_down_iff {piece name : Name} : ofPiece piece = .down name ↔
    piece = name ∧ piece ≠ [] ∧ piece ≠ [Path.dot] ∧ piece ≠ [Path.dot, Path.dot] := by
  unfold ofPiece
  split <;> simp_all

theorem Proper.ofPiece {name : Name} (h : Proper name) : Step.ofPiece name = .down name :=
  Step.ofPiece_eq_down_iff.2 ⟨rfl, h.ne_nil, h.ne_here, h.ne_up⟩

/-- A piece of a path that stands for a name is a name that an entry can have. -/
theorem proper_of_down_mem_ofPath {path : Path} {name : Name} (h : .down name ∈ Step.ofPath path) :
    Proper name := by
  obtain ⟨piece, hpiece, hname⟩ := List.mem_map.1 h
  obtain ⟨rfl, hnil, hhere, hup⟩ := Step.ofPiece_eq_down_iff.1 hname
  exact ⟨hnil, hhere, hup, not_mem_of_mem_splitAt hpiece⟩

/-- A path leads to names that entries can have, also along the links of the tree. -/
theorem proper_of_follow {t : Tree} {creating : Bool} {links : Nat} {place : Place}
    {steps : List Step} {spot : Spot} (hplace : ∀ name ∈ place, Proper name)
    (hsteps : ∀ name, .down name ∈ steps → Proper name)
    (h : t.follow creating links place steps = .ok spot) : ∀ name ∈ spot.place, Proper name := by
  fun_induction t.follow creating links place steps with
  | case1 links place =>
    obtain rfl : .taken place = spot := by simpa using h
    exact hplace
  | case3 _ _ _ _ ih | case4 _ _ _ _ ih =>
    exact ih hplace (fun name hname => hsteps name (List.mem_cons_of_mem _ hname)) h
  | case5 _ place _ _ ih =>
    exact ih (fun name hname => hplace name (List.mem_of_mem_tail hname))
      (fun name hname => hsteps name (List.mem_cons_of_mem _ hname)) h
  | case7 links place _ _ name _ _ =>
    obtain ⟨-, -, rfl⟩ := absent_eq_ok_iff.1 h
    exact List.forall_mem_cons.2 ⟨hsteps name (by simp), hplace⟩
  | case9 place steps _ name _ target _ _ ih =>
    refine ih (fun other hother => ?_) (fun other hother => ?_) h
    · exact hplace other ((start_suffix place target).mem hother)
    · rcases List.mem_append.1 hother with hother | hother
      · exact proper_of_down_mem_ofPath hother
      · exact hsteps other (List.mem_cons_of_mem _ hother)
  | case10 _ place _ _ name _ _ _ _ ih =>
    exact ih (List.forall_mem_cons.2 ⟨hsteps name (by simp), hplace⟩)
      (fun other hother => hsteps other (List.mem_cons_of_mem _ hother)) h
  | _ => simp at h

namespace WellNamed

variable {t : Tree}

theorem of_entries (h : ∀ entry ∈ t.entries, ∀ name ∈ entry.1, Proper name)
    (hhome : ∀ name ∈ t.home, Proper name) : t.WellNamed := by
  refine ⟨fun p e he => ?_, hhome⟩
  by_cases hp : p = []
  · simp [hp]
  · exact h _ (mem_of_get? hp he)

theorem empty : WellNamed .empty := of_entries (by simp [Tree.empty]) (by simp [Tree.empty])

/-- What a path leads to is reached along proper names. -/
theorem proper_of_find (h : t.WellNamed) {creating : Bool} {path : Path} {spot : Spot}
    (hfind : t.find creating path = .ok spot) : ∀ name ∈ spot.place, Proper name := by
  refine proper_of_follow (fun name hname => ?_) (fun name => proper_of_down_mem_ofPath)
    (find_eq_ok_iff.1 hfind).2
  exact h.home name ((start_suffix t.home path).mem hname)

/-- A tree stays well named if something is put at a place with proper names. -/
theorem put (h : t.WellNamed) {p : Place} (hp : ∀ name ∈ p, Proper name) (e : Entry) :
    (t.put p e).WellNamed := by
  refine ⟨fun q e' he => ?_, h.home⟩
  by_cases hq : q = p
  · exact hq ▸ hp
  · exact h.entries q e' ((get?_put_of_ne t e hq).symm.trans he)

/-- Whatever a write leaves behind. -/
theorem write (h : t.WellNamed) (d : Device) (path : Path) (contents : ByteArray) :
    (t.write d path contents).2.WellNamed := by
  cases hwrite : t.write d path contents with
  | mk result after =>
    cases result with
    | ok _ =>
      obtain ⟨place, opened, hopen, -, rfl⟩ := write_eq_ok_iff.1 hwrite
      obtain ⟨-, -, ⟨spot, hfind, rfl⟩, -⟩ := openFile_eq_ok_iff.1 hopen
      exact h.put (h.proper_of_find hfind) _
    | error cause =>
      rcases write_eq_error_iff.1 hwrite with ⟨-, rfl⟩ | ⟨place, opened, count, hopen, -, rfl⟩
      · exact h
      · obtain ⟨-, -, ⟨spot, hfind, rfl⟩, -⟩ := openFile_eq_ok_iff.1 hopen
        exact h.put (h.proper_of_find hfind) _

theorem makeDirectories (h : t.WellNamed) (path : Path) : (t.makeDirectories path).WellNamed := by
  refine List.foldlRecOn _ _ h fun t ht n _ => ?_
  split
  · next place hfind => exact ht.put (ht.proper_of_find hfind) _
  · exact ht

/-- An entry that is created keeps the names in the tree such as entries can have. -/
theorem create (h : t.WellNamed) (path : Path) (e : Entry) : (t.create path e).WellNamed := by
  have hparent := h.makeDirectories (parent path)
  cases e with
  | directory => exact h.makeDirectories path
  | file contents => exact hparent.write .sound path contents
  | link target =>
    rw [Tree.create]
    split
    · next place hfind => exact hparent.put (hparent.proper_of_find hfind) _
    · exact hparent

end WellNamed

end Tree

end Rulebook
