import Rulebook.Proofs.Descent

/-!
# What a path asks for

Where steps lead is decided by what lies at the places that are asked for on the way (`Tree.asked`):
in two trees with the same entries at these places they lead to the same (`Tree.follow_congr`).
On the way there are directories and links, and the entry that the steps lead to is asked for last
(`Tree.exists_asked_append`). A path that is made longer by a name asks for no more than it did
and what the name leads through (`Tree.mem_askedBy_join`), and a file that a path does not lead to
is none of its concern (`Tree.lookUp_of_ne`).
-/

namespace Rulebook.Tree

open Text

/-! ## Steps -/

/-- The places that are asked for what lies there while steps are followed from a place along at
most `links` links, in order. -/
def asked (t : Tree) (links : Nat) (place : Place) : List Step → List Place
  | [] => [place]
  | step :: rest =>
    if t.get? place ≠ some .directory then [place]
    else
      match step with
      | .slash | .here => place :: t.asked links place rest
      | .up => place :: t.asked links place.tail rest
      | .down name =>
        match t.get? (name :: place) with
        | none => [place, name :: place]
        | some (.link target) =>
          match links with
          | 0 => [place, name :: place]
          | links + 1 =>
            place :: (name :: place) ::
              t.asked links (start place target) (Step.ofPath target ++ rest)
        | some _ => place :: t.asked links (name :: place) rest
termination_by steps => (links, steps.length)

section

variable {t u : Tree} {links left : Nat} {place q : Place} {rest steps : List Step}
  {name : Name}

theorem asked_nil : t.asked links place [] = [place] := by
  rw [asked]

theorem asked_of_not_directory (step : Step) (h : t.get? place ≠ some .directory) :
    t.asked links place (step :: rest) = [place] := by
  rw [asked.eq_def]
  exact if_pos h

theorem asked_slash (h : t.get? place = some .directory) :
    t.asked links place (.slash :: rest) = place :: t.asked links place rest := by
  rw [asked, if_neg (not_not_intro h)]

theorem asked_here (h : t.get? place = some .directory) :
    t.asked links place (.here :: rest) = place :: t.asked links place rest := by
  rw [asked, if_neg (not_not_intro h)]

theorem asked_up (h : t.get? place = some .directory) :
    t.asked links place (.up :: rest) = place :: t.asked links place.tail rest := by
  rw [asked, if_neg (not_not_intro h)]

theorem asked_down {e : Entry} (h : t.get? place = some .directory)
    (he : t.get? (name :: place) = some e) (hlink : ∀ target, e ≠ .link target) :
    t.asked links place (.down name :: rest) = place :: t.asked links (name :: place) rest := by
  rw [asked, if_neg (not_not_intro h)]
  cases e with
  | link target => exact absurd rfl (hlink target)
  | _ => simp only [he]

theorem asked_down_none (h : t.get? place = some .directory) (he : t.get? (name :: place) = none) :
    t.asked links place (.down name :: rest) = [place, name :: place] := by
  rw [asked, if_neg (not_not_intro h)]
  simp only [he]

/-- A step down to a link asks for it, and then along its target. -/
theorem asked_down_link {target : Path} (h : t.get? place = some .directory)
    (he : t.get? (name :: place) = some (.link target)) :
    t.asked (links + 1) place (.down name :: rest) = place :: (name :: place) ::
      t.asked links (start place target) (Step.ofPath target ++ rest) := by
  rw [asked, if_neg (not_not_intro h)]
  simp only [he]

theorem asked_down_link_zero {target : Path} (h : t.get? place = some .directory)
    (he : t.get? (name :: place) = some (.link target)) :
    t.asked 0 place (.down name :: rest) = [place, name :: place] := by
  rw [asked, if_neg (not_not_intro h)]
  simp only [he]

theorem mem_asked_self : place ∈ t.asked links place steps := by
  fun_cases t.asked links place steps <;> exact List.mem_cons_self

/-- With fewer links left no more is asked for. -/
theorem asked_mono (h : left ≤ links) : t.asked left place steps ⊆ t.asked links place steps := by
  fun_induction t.asked links place steps generalizing left with
  | case1 => exact asked_nil ▸ List.Subset.refl _
  | case2 _ _ step _ hplace => exact asked_of_not_directory step hplace ▸ List.Subset.refl _
  | case3 _ _ _ hplace ih =>
    rw [asked_slash (Decidable.not_not.1 hplace)]
    exact List.cons_subset_cons _ (ih h)
  | case4 _ _ _ hplace ih =>
    rw [asked_here (Decidable.not_not.1 hplace)]
    exact List.cons_subset_cons _ (ih h)
  | case5 _ _ _ hplace ih =>
    rw [asked_up (Decidable.not_not.1 hplace)]
    exact List.cons_subset_cons _ (ih h)
  | case6 _ _ _ hplace name he =>
    exact asked_down_none (Decidable.not_not.1 hplace) he ▸ List.Subset.refl _
  | case7 _ _ hplace name target he =>
    obtain rfl := Nat.le_zero.1 h
    exact asked_down_link_zero (Decidable.not_not.1 hplace) he ▸ List.Subset.refl _
  | case8 _ _ hplace name target he links ih =>
    cases left with
    | zero =>
      rw [asked_down_link_zero (Decidable.not_not.1 hplace) he]
      exact List.cons_subset_cons _ (List.cons_subset_cons _ (List.nil_subset _))
    | succ left =>
      rw [asked_down_link (Decidable.not_not.1 hplace) he]
      exact List.cons_subset_cons _ (List.cons_subset_cons _ (ih (Nat.le_of_succ_le_succ h)))
  | case9 _ _ _ hplace name e hlink he ih =>
    rw [asked_down (Decidable.not_not.1 hplace) he hlink]
    exact List.cons_subset_cons _ (ih h)

/-- Steps lead to the same in two trees that have the same entries at all places that are asked
for. -/
theorem follow_congr (h : ∀ p ∈ t.asked links place steps, u.get? p = t.get? p) :
    u.follow false links place steps = t.follow false links place steps := by
  have hplace' := h place mem_asked_self
  fun_induction t.asked links place steps with
  | case1 => rw [follow_nil, follow_nil]
  | case2 _ _ step _ hplace =>
    rw [follow_of_not_directory step hplace, follow_of_not_directory step (hplace' ▸ hplace)]
  | case3 _ _ _ hplace ih =>
    have hplace := Decidable.not_not.1 hplace
    have hrest := (List.forall_mem_cons.1 h).2
    rw [follow_slash hplace, follow_slash (hplace'.trans hplace), ih hrest (hrest _ mem_asked_self)]
  | case4 _ _ _ hplace ih =>
    have hplace := Decidable.not_not.1 hplace
    have hrest := (List.forall_mem_cons.1 h).2
    rw [follow_here hplace, follow_here (hplace'.trans hplace), ih hrest (hrest _ mem_asked_self)]
  | case5 _ _ _ hplace ih =>
    have hplace := Decidable.not_not.1 hplace
    have hrest := (List.forall_mem_cons.1 h).2
    rw [follow_up hplace, follow_up (hplace'.trans hplace), ih hrest (hrest _ mem_asked_self)]
  | case6 links place rest hplace name he =>
    have hplace := Decidable.not_not.1 hplace
    have hname := (h (name :: place) (by simp)).trans he
    rw [follow_down_none hplace he, follow_down_none (hplace'.trans hplace) hname]
  | case7 place rest hplace name target he =>
    have hplace := Decidable.not_not.1 hplace
    have hname := (h (name :: place) (by simp)).trans he
    rw [follow_down_link_zero hplace he, follow_down_link_zero (hplace'.trans hplace) hname]
  | case8 place rest hplace name target he links ih =>
    have hplace := Decidable.not_not.1 hplace
    obtain ⟨hname, hrest⟩ := List.forall_mem_cons.1 (List.forall_mem_cons.1 h).2
    rw [follow_down_link hplace he, follow_down_link (hplace'.trans hplace) (hname.trans he),
      ih hrest (hrest _ mem_asked_self)]
  | case9 links place rest hplace name e hlink he ih =>
    have hplace := Decidable.not_not.1 hplace
    have hrest := (List.forall_mem_cons.1 h).2
    have hname := hrest (name :: place) mem_asked_self
    rw [follow_down hplace he hlink, follow_down (hplace'.trans hplace) (hname.trans he) hlink,
      ih hrest hname]

/-- Steps that lead to an entry ask for directories and links on the way, and what comes after them
asks for more from there on. -/
theorem exists_asked_append (h : t.follow false links place steps = .ok (.taken q)) :
    ∃ before left, left ≤ links ∧
      (∀ p ∈ before, t.get? p = some .directory ∨ ∃ target, t.get? p = some (.link target)) ∧
      ∀ rest, t.asked links place (steps ++ rest) = before ++ t.asked left q rest := by
  fun_induction t.follow false links place steps with
  | case1 links place =>
    obtain rfl : place = q := by simpa using h
    exact ⟨[], links, Nat.le_refl links, by simp, fun rest => rfl⟩
  | case3 _ place steps hplace ih =>
    have hplace := Decidable.not_not.1 hplace
    obtain ⟨before, left, hleft, hbefore, hrest⟩ := ih h
    exact ⟨place :: before, left, hleft, List.forall_mem_cons.2 ⟨.inl hplace, hbefore⟩,
      fun rest => by rw [List.cons_append, asked_slash hplace, hrest, List.cons_append]⟩
  | case4 _ place steps hplace ih =>
    have hplace := Decidable.not_not.1 hplace
    obtain ⟨before, left, hleft, hbefore, hrest⟩ := ih h
    exact ⟨place :: before, left, hleft, List.forall_mem_cons.2 ⟨.inl hplace, hbefore⟩,
      fun rest => by rw [List.cons_append, asked_here hplace, hrest, List.cons_append]⟩
  | case5 _ place steps hplace ih =>
    have hplace := Decidable.not_not.1 hplace
    obtain ⟨before, left, hleft, hbefore, hrest⟩ := ih h
    exact ⟨place :: before, left, hleft, List.forall_mem_cons.2 ⟨.inl hplace, hbefore⟩,
      fun rest => by rw [List.cons_append, asked_up hplace, hrest, List.cons_append]⟩
  | case9 place steps hplace name _ target he links ih =>
    have hplace := Decidable.not_not.1 hplace
    obtain ⟨before, left, hleft, hbefore, hrest⟩ := ih h
    refine ⟨place :: (name :: place) :: before, left, Nat.le_succ_of_le hleft, ?_, fun rest => ?_⟩
    · exact List.forall_mem_cons.2 ⟨.inl hplace, List.forall_mem_cons.2 ⟨.inr ⟨_, he⟩, hbefore⟩⟩
    · rw [List.cons_append, asked_down_link hplace he, ← List.append_assoc, hrest]
      rfl
  | case10 _ place steps hplace name _ e hlink he ih =>
    have hplace := Decidable.not_not.1 hplace
    obtain ⟨before, left, hleft, hbefore, hrest⟩ := ih h
    exact ⟨place :: before, left, hleft, List.forall_mem_cons.2 ⟨.inl hplace, hbefore⟩,
      fun rest => by rw [List.cons_append, asked_down hplace he hlink, hrest, List.cons_append]⟩
  | case7 _ place steps _ name _ _ => exact absurd h (absent_ne_taken place name steps q)
  | _ => simp at h

end

/-! ## Paths -/

/-- The places that are asked for what lies there while a path is followed. -/
def askedBy (t : Tree) (path : Path) : List Place :=
  t.asked maxLinks (start t.home path) (Step.ofPath path)

section

variable {t u : Tree} {path : Path} {name : Name} {p q place : Place}

/-- A path resolves alike in trees that agree on all places it asks. -/
theorem resolve_congr (hhome : u.home = t.home)
    (h : ∀ p ∈ t.askedBy path, u.get? p = t.get? p) : u.resolve path = t.resolve path := by
  have hfind : u.find false path = t.find false path := by
    cases path with
    | nil => rfl
    | cons c path =>
      rw [find_of_ne_nil (List.cons_ne_nil c path), find_of_ne_nil (List.cons_ne_nil c path), hhome,
        follow_congr h]
  rw [resolve, resolve, hfind]

/-- The entry that a path leads to is asked for after directories and links. -/
theorem exists_askedBy_eq (h : t.resolve path = .ok q) : ∃ before, t.askedBy path = before ++ [q] ∧
    ∀ p ∈ before, t.get? p = some .directory ∨ ∃ target, t.get? p = some (.link target) := by
  obtain ⟨before, left, -, hbefore, hrest⟩ :=
    exists_asked_append (find_eq_ok_iff.1 (resolve_eq_ok_iff.1 h)).2
  have hasked := hrest []
  rw [List.append_nil, asked_nil] at hasked
  exact ⟨before, hasked, hbefore⟩

theorem lookUp_congr (hhome : u.home = t.home)
    (h : ∀ p ∈ t.askedBy path, u.get? p = t.get? p) : u.lookUp path = t.lookUp path := by
  rw [lookUp, lookUp, resolve_congr hhome h]
  cases hplace : t.resolve path with
  | error cause => rfl
  | ok place =>
    obtain ⟨before, hasked, -⟩ := exists_askedBy_eq hplace
    have hlast := h place (by simp [hasked])
    simp only [bind, Except.bind, hlast]

/-- What is neither a directory nor a link is asked for by no path that leads elsewhere. -/
theorem not_mem_askedBy (h : t.resolve path = .ok p) (hne : p ≠ q)
    (hdirectory : t.get? q ≠ some .directory) (hlink : ∀ target, t.get? q ≠ some (.link target)) :
    q ∉ t.askedBy path := by
  obtain ⟨before, hasked, hbefore⟩ := exists_askedBy_eq h
  rw [hasked, List.mem_append, List.mem_singleton]
  rintro (hq | rfl)
  · obtain hq | ⟨target, hq⟩ := hbefore q hq
    · exact hdirectory hq
    · exact hlink target hq
  · exact hne rfl

/-- Whatever is changed there, a path that leads elsewhere leads to the same entry. -/
theorem lookUp_of_ne (h : t.resolve path = .ok p) (hne : p ≠ q)
    (hdirectory : t.get? q ≠ some .directory) (hlink : ∀ target, t.get? q ≠ some (.link target))
    (hhome : u.home = t.home) (hsame : ∀ p, p ≠ q → u.get? p = t.get? p) :
    u.lookUp path = t.lookUp path := by
  refine lookUp_congr hhome fun other hother => hsame other ?_
  rintro rfl
  exact not_mem_askedBy h hne hdirectory hlink hother

/-- A file that is put where no directory or link is makes no difference to paths that do not lead
to it. -/
theorem lookUp_put_iff {contents : ByteArray} {e : Entry} (hdirectory : t.get? q ≠ some .directory)
    (hlink : ∀ target, t.get? q ≠ some (.link target))
    (hpath : (t.put q (.file contents)).resolve path ≠ .ok q) :
    (t.put q (.file contents)).lookUp path = .ok e ↔ t.lookUp path = .ok e := by
  have hsame := fun p (hne : p ≠ q) => get?_put_of_ne t (.file contents) hne
  have hfile := get?_put_self t (.file contents) (ne_nil_of_not_directory hdirectory)
  constructor
  · intro h
    obtain ⟨p, hp, -⟩ := lookUp_eq_ok_iff.1 h
    have hne : p ≠ q := by
      rintro rfl
      exact hpath hp
    rw [← h]
    exact lookUp_of_ne hp hne (by simp [hfile]) (by simp [hfile]) rfl
      fun other hother => (hsame other hother).symm
  · intro h
    obtain ⟨p, hp, -⟩ := lookUp_eq_ok_iff.1 h
    have hne : p ≠ q := by
      rintro rfl
      have hfind := resolve_eq_ok_iff.1 hp
      exact hpath (resolve_eq_ok_iff.2 (find_put contents (Bool.le_refl false) hdirectory hfind))
    rw [← h]
    exact lookUp_of_ne hp hne hdirectory hlink rfl hsame

/-- A path that is made longer by a name asks for what the path asks for, and for what the name
leads through from where the path leads. -/
theorem mem_askedBy_join (hpath : t.resolve path = .ok place) (hname : Proper name)
    (hp : p ∈ t.askedBy (join path name)) :
    p ∈ t.askedBy path ∨ p ∈ t.asked maxLinks place [.down name] := by
  obtain ⟨hne, left, hleft⟩ := exists_links_follow_stem hpath
  have hstem : t.follow false maxLinks (start t.home path) (stem path) = .ok (.taken place) := by
    simpa [follow_nil] using hleft []
  obtain ⟨before, left, hle, -, hrest⟩ := exists_asked_append hstem
  have hstart : start t.home (join path name) = start t.home path := start_below _ hne [name]
  rw [askedBy, hstart, ofPath_join hne hname, hrest, List.mem_append] at hp
  refine hp.imp (fun hp => ?_) fun hp => asked_mono hle hp
  rcases ofPath_eq_stem path with hsteps | hsteps
  · rw [askedBy, hsteps, ← List.append_nil (stem path), hrest]
    exact List.mem_append_left _ hp
  · rw [askedBy, hsteps, hrest]
    exact List.mem_append_left _ hp

end

end Rulebook.Tree
