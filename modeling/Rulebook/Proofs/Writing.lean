import Rulebook.Tree.Write

/-!
# What a write leaves behind

A file that is written is found under the path that it was written to, although the links on the
way are followed once more, in a tree that is another one by then (`Tree.exists_filled_of_write`).
The way there meets directories, which a file does not replace, and links : one of them would
have to be the place itself, but no path ends at a link that it goes along
(`Tree.suffix_of_follow`). All other entries stay as they are, also if the write breaks off
(`Tree.eq_or_exists_filled_of_write`), and to write the same once more changes nothing
(`Tree.write_write`).
-/

namespace Rulebook.Tree

open Text

/-- A path starts in the directory or above it. -/
theorem start_suffix (directory : Place) (path : Path) : start directory path <:+ directory := by
  unfold start
  split
  · exact List.nil_suffix
  · exact List.suffix_rfl

/-- A path that ends at a link starts below it : from above it would have gone along the link. -/
theorem suffix_of_follow {t : Tree} {creating : Bool} {links : Nat} {place p : Place}
    {steps : List Step} {target : Path} (hp : t.get? p = some (.link target))
    (h : t.follow creating links place steps = .ok (.taken p)) : p <:+ place := by
  fun_induction t.follow creating links place steps with
  | case1 links place =>
    obtain rfl : place = p := by simpa using h
    exact List.suffix_rfl
  | case3 _ _ _ _ ih | case4 _ _ _ _ ih => exact ih h
  | case5 _ place _ _ ih => exact (ih h).trans (List.tail_suffix place)
  | case7 _ place rest _ name _ _ => exact absurd h (absent_ne_taken place name rest p)
  | case9 place _ _ _ _ inner _ _ ih => exact (ih h).trans (start_suffix place inner)
  | case10 _ place _ _ name _ e hlink he ih =>
    rcases List.suffix_cons_iff.1 (ih h) with rfl | hsuffix
    · rw [hp, Option.some.injEq] at he
      exact absurd he.symm (hlink target)
    · exact hsuffix
  | _ => simp at h

/-- Where a link leads, no path ends at the link itself. -/
theorem place_ne_of_link {t : Tree} {creating : Bool} {links : Nat} {name : Name} {target : Path}
    {place : Place} {steps : List Step} {spot : Spot}
    (he : t.get? (name :: place) = some (.link target))
    (h : t.follow creating links (start place target) steps = .ok spot) :
    name :: place ≠ spot.place := by
  rintro heq
  cases spot with
  | free p => simp [get?_of_follow_free h, show name :: place = p from heq] at he
  | taken p =>
    obtain rfl : name :: place = p := heq
    have hle := ((suffix_of_follow he h).trans (start_suffix place target)).length_le
    rw [List.length_cons] at hle
    omega

theorem ne_nil_of_not_directory {t : Tree} {p : Place} (h : t.get? p ≠ some .directory) :
    p ≠ [] := by
  rintro rfl
  exact h rfl

/-- A path along which a file can be created, or is found, leads to the file once it is there. -/
theorem follow_put {t : Tree} {creating creating' : Bool} {links : Nat} {place : Place}
    {steps : List Step} {spot : Spot} (contents : ByteArray) (hle : creating' ≤ creating)
    (hspot : t.get? spot.place ≠ some .directory)
    (h : t.follow creating links place steps = .ok spot) :
    (t.put spot.place (.file contents)).follow creating' links place steps =
      .ok (.taken spot.place) := by
  have hnil := ne_nil_of_not_directory hspot
  have hfile := get?_put_self t (.file contents) hnil
  have hdirectory : ∀ {q : Place}, ¬t.get? q ≠ some .directory →
      (t.put spot.place (.file contents)).get? q = some .directory := by
    intro q hq
    have hq' : t.get? q = some .directory := Decidable.not_not.1 hq
    rw [get?_put_of_ne t _ (by rintro rfl; exact hspot hq'), hq']
  -- A name that has only slashes after it is refused at most where it is refused before.
  have hnamed : ∀ {rest : List Step},
      ¬(creating = true ∧ rest ≠ [] ∧ rest.all (· = .slash) = true) →
        ¬(creating' = true ∧ rest ≠ [] ∧ rest.all (· = .slash) = true) :=
    fun hguard hrefused => hguard ⟨hle hrefused.1, hrefused.2⟩
  fun_induction t.follow creating links place steps with
  | case1 links place =>
    obtain rfl : .taken place = spot := by simpa using h
    exact follow_nil
  | case3 _ _ _ hplace ih => rw [follow_slash (hdirectory hplace), ih h]
  | case4 _ _ _ hplace ih => rw [follow_here (hdirectory hplace), ih h]
  | case5 _ _ _ hplace ih => rw [follow_up (hdirectory hplace), ih h]
  | case7 links place _ hplace name _ hnone =>
    obtain ⟨-, rfl, rfl⟩ := absent_eq_ok_iff.1 h
    rw [follow, if_neg (not_not_intro (hdirectory hplace)), if_neg (by simp)]
    simp only [Spot.place] at hfile ⊢
    simp only [hfile, follow_nil]
  | case9 place _ hplace name hguard target he _ ih =>
    have hkept := (get?_put_of_ne t (.file contents) (place_ne_of_link he h)).trans he
    rw [follow, if_neg (not_not_intro (hdirectory hplace)), if_neg (hnamed hguard)]
    simp only [hkept, ih h]
  | case10 _ place _ hplace name hguard e hlink he ih =>
    obtain ⟨e', he', hlink'⟩ : ∃ e', (t.put spot.place (.file contents)).get? (name :: place) =
        some e' ∧ ∀ target, e' ≠ .link target := by
      by_cases heq : name :: place = spot.place
      · exact ⟨.file contents, by rw [heq, hfile], by simp⟩
      · exact ⟨e, (get?_put_of_ne t _ heq).trans he, hlink⟩
    rw [follow, if_neg (not_not_intro (hdirectory hplace)), if_neg (hnamed hguard)]
    cases e' with
    | link target => exact absurd rfl (hlink' target)
    | _ => simp only [he', ih h]
  | _ => simp at h

/-- Once a file is put at the spot that a path led to, the path leads to it. -/
theorem find_put {t : Tree} {creating creating' : Bool} {path : Path} {spot : Spot}
    (contents : ByteArray) (hle : creating' ≤ creating)
    (hspot : t.get? spot.place ≠ some .directory) (h : t.find creating path = .ok spot) :
    (t.put spot.place (.file contents)).find creating' path = .ok (.taken spot.place) := by
  obtain ⟨hpath, h⟩ := find_eq_ok_iff.1 h
  exact find_eq_ok_iff.2 ⟨hpath, follow_put contents hle hspot h⟩

/-! ## Outcomes of a write -/

theorem put_put (t : Tree) (p : Place) (e e' : Entry) : (t.put p e).put p e' = t.put p e' := by
  simp [put]

section

variable {t t' opened : Tree} {d : Device} {path : Path} {contents : ByteArray} {place : Place}
  {cause : Cause}

/-- A file can be opened where a path leads to, unless a directory lies there or the device refuses;
it is empty then. -/
theorem openFile_eq_ok_iff : t.openFile d path = .ok (place, opened) ↔
    0 ∉ path ∧ path.length < maxPath ∧
      (∃ spot, t.find true path = .ok spot ∧ spot.place = place) ∧
      t.get? place ≠ some .directory ∧ d.refuses place = none ∧
      t.put place (.file .empty) = opened := by
  rw [openFile]
  split
  · next hnull => simp [hnull]
  split
  · next hlong => simp [Nat.not_lt.2 hlong]
  next hnull hlong =>
    rw [and_iff_right hnull, and_iff_right (Nat.lt_of_not_le hlong)]
    cases hfind : t.find true path with
    | error cause => simp
    | ok spot =>
      by_cases hspot : t.get? spot.place = some .directory
      · simp only [hspot, if_true, reduceCtorEq, false_iff]
        rintro ⟨⟨_, hspot', rfl⟩, hdirectory, -⟩
        exact hdirectory (Except.ok.inj hspot' ▸ hspot)
      · cases hrefuses : d.refuses spot.place with
        | some cause =>
          simp only [hspot, if_false, hrefuses, reduceCtorEq, false_iff]
          rintro ⟨⟨_, hspot', rfl⟩, -, hnone, -⟩
          rw [← Except.ok.inj hspot', hrefuses] at hnone
          cases hnone
        | none =>
          simp only [hspot, if_false, hrefuses, Except.ok.injEq, Prod.mk.injEq]
          constructor
          · rintro ⟨rfl, rfl⟩
            exact ⟨⟨spot, rfl, rfl⟩, hspot, hrefuses, rfl⟩
          · rintro ⟨⟨_, rfl, rfl⟩, -, -, rfl⟩
            exact ⟨rfl, rfl⟩

/-- A write succeeds if a file is opened and takes all bytes. -/
theorem write_eq_ok_iff : t.write d path contents = (.ok (), t') ↔
    ∃ place opened, t.openFile d path = .ok (place, opened) ∧
      d.breaksOff place contents = none ∧ t.put place (.file contents) = t' := by
  rw [write]
  cases hopen : t.openFile d path with
  | error cause => simp
  | ok result =>
    obtain ⟨place, opened⟩ := result
    obtain ⟨-, -, -, -, -, rfl⟩ := openFile_eq_ok_iff.1 hopen
    cases hbreak : d.breaksOff place contents with
    | none => simp [hbreak, put_put]
    | some broken => simp [hbreak]

/-- A write fails if no file is opened, or if the bytes break off, and then the file has some of
them. -/
theorem write_eq_error_iff : t.write d path contents = (.error cause, t') ↔
    t.openFile d path = .error cause ∧ t = t' ∨
    ∃ place opened count, t.openFile d path = .ok (place, opened) ∧
      d.breaksOff place contents = some (count, cause) ∧
      t.put place (.file (contents.extract 0 count)) = t' := by
  rw [write]
  cases hopen : t.openFile d path with
  | error cause => simp
  | ok result =>
    obtain ⟨place, opened⟩ := result
    obtain ⟨-, -, -, -, -, rfl⟩ := openFile_eq_ok_iff.1 hopen
    cases hbreak : d.breaksOff place contents with
    | none => simp [hbreak]
    | some broken =>
      obtain ⟨count, cause'⟩ := broken
      simp only [hbreak, put_put, Prod.mk.injEq, Except.error.injEq, reduceCtorEq, false_and,
        false_or, Except.ok.injEq]
      constructor
      · rintro ⟨rfl, rfl⟩
        exact ⟨place, _, count, ⟨rfl, rfl⟩, hbreak, rfl⟩
      · rintro ⟨_, _, _, ⟨rfl, -⟩, hbroken, rfl⟩
        obtain ⟨rfl, rfl⟩ := Prod.mk.inj (Option.some.inj (hbreak.symm.trans hbroken))
        exact ⟨rfl, rfl⟩

end

/-- The path leads to a file with the bytes, and all else is as it is in another tree. -/
structure Filled (t : Tree) (path : Path) (place : Place) (contents : ByteArray) (after : Tree) :
    Prop where
  resolve : after.resolve path = .ok place
  file : after.get? place = some (.file contents)
  frame : ∀ q, q ≠ place → after.get? q = t.get? q

section

variable {t t' opened : Tree} {d : Device} {path : Path} {contents : ByteArray} {place : Place}
  {cause : Cause}

/-- Whatever the file that is opened has in the end, it is found under the path, and all other
entries stay as they are. -/
theorem filled_of_openFile (h : t.openFile d path = .ok (place, opened)) (contents : ByteArray) :
    t.Filled path place contents (t.put place (.file contents)) := by
  obtain ⟨-, -, ⟨spot, hfind, rfl⟩, hspot, -⟩ := openFile_eq_ok_iff.1 h
  have hnil := ne_nil_of_not_directory hspot
  refine ⟨?_, get?_put_self t _ hnil, fun q hq => get?_put_of_ne t _ hq⟩
  exact resolve_eq_ok_iff.2 (find_put contents (Bool.false_le true) hspot hfind)

/-- What is written is found under the path. -/
theorem exists_filled_of_write (h : t.write d path contents = (.ok (), t')) :
    ∃ place, t.Filled path place contents t' := by
  obtain ⟨place, opened, hopen, -, rfl⟩ := write_eq_ok_iff.1 h
  exact ⟨place, filled_of_openFile hopen contents⟩

/-- A write that fails changes nothing, or it breaks off, and has put some of the bytes into the
file that the path leads to. -/
theorem eq_or_exists_filled_of_write (h : t.write d path contents = (.error cause, t')) :
    t' = t ∨ ∃ place count, d.breaksOff place contents = some (count, cause) ∧
      t.Filled path place (contents.extract 0 count) t' := by
  rcases write_eq_error_iff.1 h with ⟨-, rfl⟩ | ⟨place, opened, count, hopen, hbreak, rfl⟩
  · exact Or.inl rfl
  · exact Or.inr ⟨place, count, hbreak, filled_of_openFile hopen _⟩

/-- What is written once more is written to the same place, and changes nothing. -/
theorem write_write (h : t.write d path contents = (.ok (), t')) :
    t'.write d path contents = (.ok (), t') := by
  obtain ⟨place, opened, hopen, hbreak, rfl⟩ := write_eq_ok_iff.1 h
  obtain ⟨hnull, hlong, ⟨spot, hfind, rfl⟩, hspot, hrefuses, -⟩ := openFile_eq_ok_iff.1 hopen
  have hnil := ne_nil_of_not_directory hspot
  have hfile : (t.put spot.place (.file contents)).get? spot.place ≠ some .directory := by
    simp [get?_put_self t _ hnil]
  have hopen' := openFile_eq_ok_iff.2 ⟨hnull, hlong,
    ⟨.taken spot.place, find_put contents (Bool.le_refl true) hspot hfind, rfl⟩, hfile, hrefuses,
    rfl⟩
  exact write_eq_ok_iff.2 ⟨spot.place, _, hopen', hbreak, put_put t spot.place _ _⟩

end

end Rulebook.Tree
