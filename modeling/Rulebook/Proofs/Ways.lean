import Rulebook.Proofs.Collection

/-!
# Ways below a root

Where links are followed, what lies below a root is a graph : there is a way to a directory for
every list of names that leads there. A way is walked if no link on it leads back
(`Tree.Walked`), which a link does if it leads to a directory on the way to it
(`Tree.LeadsBack`). A walk meets the names in the directories that are walked (`Tree.Meets`).
What it finds at a name depends only on where the paths lead (`Tree.Meets.unique`), and it
finds something at every name (`Tree.Walked.exists_meets`).
-/

namespace Rulebook

namespace Tree

open Text

/-! ## Ways -/

section Ways

variable (t : Tree) (root : Path)

/-- Where a path leads, there is an entry of this name. -/
def Lists (path : Path) (name : Name) (e : Entry) : Prop :=
  ∃ place, t.resolve path = .ok place ∧ t.get? (name :: place) = some e

/-- A link in the directory that `front` leads to leads back to a directory on the way there, and
the last one on the way that it leads to is where `before` leads. -/
structure LeadsBack (front : List Name) (name : Name) (before : List Name) : Prop where
  link : ∃ target, t.Lists (below root front) name (.link target)
  on_way : before <+: front
  same : t.resolve (below root before) = t.resolve (below root (front ++ [name]))
  last : ∀ other, other <+: front →
    t.resolve (below root other) = t.resolve (below root (front ++ [name])) → other <+: before

/-- Names lead from the root through directories, and no link among them leads back. -/
structure Walked (names : List Name) : Prop where
  proper : ∀ name ∈ names, Proper name
  directory : ∀ front, front <+: names → t.isDirectory (below root front) = true
  forward : ∀ front name before, front ++ [name] <+: names → ¬ t.LeadsBack root front name before

end Ways

theorem isDirectory_iff_exists {t : Tree} {path : Path} : t.isDirectory path = true ↔
    ∃ place, t.resolve path = .ok place ∧ t.get? place = some .directory :=
  isDirectory_iff.trans lookUp_eq_ok_iff

theorem below_concat (path : Path) (front : List Name) (name : Name) :
    below path (front ++ [name]) = join (below path front) name := by
  rw [below, List.foldl_concat, ← below]

section

variable {t : Tree} {root : Path} {front before before' : List Name} {name : Name} {e e' : Entry}
  {place : Place}

/-- A directory has one entry of a name. -/
theorem Lists.unique {path : Path} (h : t.Lists path name e) (h' : t.Lists path name e') :
    e = e' := by
  obtain ⟨place, hplace, he⟩ := h
  obtain ⟨place', hplace', he'⟩ := h'
  obtain rfl := Except.ok.inj (hplace.symm.trans hplace')
  exact Option.some.inj (he.symm.trans he')

theorem Lists.proper {path : Path} (h : t.Lists path name e) (hnamed : t.WellNamed) :
    Proper name := by
  obtain ⟨place, -, he⟩ := h
  exact hnamed.entries _ e he name List.mem_cons_self

/-- A link leads back to one directory on the way. -/
theorem LeadsBack.unique (h : t.LeadsBack root front name before)
    (h' : t.LeadsBack root front name before') : before = before' :=
  (h'.last _ h.on_way h.same).eq_of_length_le (h.last _ h'.on_way h'.same).length_le

namespace Walked

/-- A way that is walked leads to a directory. -/
theorem exists_place (h : t.Walked root front) : ∃ place,
    t.resolve (below root front) = .ok place ∧ t.get? place = some .directory :=
  isDirectory_iff_exists.1 (h.directory front (List.prefix_refl front))

/-- A way that is walked is walked up to each of its directories. -/
theorem of_prefix (h : t.Walked root front) (hbefore : before <+: front) :
    t.Walked root before where
  proper name hname := h.proper name (hbefore.subset hname)
  directory other hother := h.directory other (hother.trans hbefore)
  forward other name back hother := h.forward other name back (hother.trans hbefore)

theorem nil (h : t.isDirectory root = true) : t.Walked root [] where
  proper := by simp
  directory front hfront := by rwa [List.prefix_nil.1 hfront]
  forward front name before hprefix := by simp at hprefix

end Walked

theorem LeadsBack.exists_place (h : t.LeadsBack root front name before)
    (hfront : t.Walked root front) : ∃ place,
      t.resolve (below root (front ++ [name])) = .ok place ∧ t.get? place = some .directory :=
  h.same ▸ (hfront.of_prefix h.on_way).exists_place

/-- A way is walked one name further if that leads to a directory and not back. -/
theorem walked_concat_iff : t.Walked root (front ++ [name]) ↔ t.Walked root front ∧ Proper name ∧
    t.isDirectory (below root (front ++ [name])) = true ∧
      ∀ before, ¬ t.LeadsBack root front name before := by
  constructor
  · intro h
    exact ⟨h.of_prefix (List.prefix_append front [name]), h.proper name (by simp),
      h.directory _ (List.prefix_refl _), fun before => h.forward _ _ _ (List.prefix_refl _)⟩
  · rintro ⟨hfront, hproper, hdirectory, hforward⟩
    refine ⟨fun other hother => ?_, fun other hother => ?_, fun other last before hother => ?_⟩
    · rcases List.mem_append.1 hother with hother | hother
      · exact hfront.proper other hother
      · rwa [List.mem_singleton.1 hother]
    · rcases List.prefix_concat_iff.1 hother with rfl | hother
      · exact hdirectory
      · exact hfront.directory other hother
    · rcases List.prefix_concat_iff.1 hother with heq | hother
      · obtain ⟨rfl, hlast⟩ := List.append_inj' heq rfl
        obtain rfl := List.singleton_inj.1 hlast
        exact hforward before
      · exact hfront.forward other last before hother

/-! ## Where the names on a way lead -/

/-- Where a path leads that is made longer by a name, there is an entry of that name. -/
theorem exists_entry_of_resolve_join {path : Path} {q : Place} (hpath : t.resolve path = .ok place)
    (hname : Proper name) (h : t.resolve (join path name) = .ok q) :
    ∃ e, t.get? (name :: place) = some e := by
  obtain ⟨hne, left, hleft⟩ := exists_links_follow_stem hpath
  have hstart : start t.home (join path name) = start t.home path := start_below _ hne [name]
  rw [resolve_eq_ok_iff, find_of_ne_nil (join_ne_nil hne name), hstart, ofPath_join hne hname,
    hleft] at h
  by_contra hnone
  rw [← Option.isSome_iff_exists, Option.not_isSome_iff_eq_none] at hnone
  by_cases hplace : t.get? place = some .directory
  · rw [follow_down_none hplace hnone] at h
    exact absent_ne_taken place name [] q h
  · rw [follow_of_not_directory _ hplace] at h
    cases h

/-- An entry on a way that is no link is where its path leads. -/
theorem Walked.resolve_concat (h : t.Walked root front) (hnamed : t.WellNamed)
    (hplace : t.resolve (below root front) = .ok place) (he : t.get? (name :: place) = some e)
    (hlink : ∀ target, e ≠ .link target) :
    t.resolve (below root (front ++ [name])) = .ok (name :: place) := by
  obtain ⟨q, hq, hdirectory⟩ := h.exists_place
  obtain rfl := Except.ok.inj (hq.symm.trans hplace)
  have hreached : t.Reached q [name] := reached_cons_iff.2 ⟨hdirectory, .inl ⟨rfl, e, he⟩⟩
  rw [below_concat]
  exact resolve_below hnamed hq hreached he hlink

/-! ## What is met -/

/-- A name that a walk comes by in the directory that `front` leads to, and what it finds there,
which is nothing if the name leads to a directory that is entered. -/
structure Visit where
  front : List Name
  name : Name
  found : Option Found

/-- The names that lead to what is visited. -/
def Visit.names (v : Visit) : List Name := v.front ++ [v.name]

/-- What is visited is what a name leads to, or lies below it. -/
theorem Visit.prefix_names_iff (v : Visit) {front : List Name} {name : Name} :
    front ++ [name] <+: v.names ↔
      (front = v.front ∧ name = v.name) ∨ front ++ [name] <+: v.front := by
  rw [names, List.prefix_concat_iff]
  refine or_congr_left ⟨fun heq => ?_, fun ⟨hfront, hname⟩ => by rw [hfront, hname]⟩
  obtain ⟨hfront, hname⟩ := List.append_inj' heq rfl
  exact ⟨hfront, List.singleton_inj.1 hname⟩

/-- What is visited in a directory or below is visited from one of its names on. -/
theorem Visit.prefix_front_iff (v : Visit) {front : List Name} :
    front <+: v.front ↔ ∃ name, front ++ [name] <+: v.names := by
  constructor
  · rintro ⟨rest, hrest⟩
    obtain ⟨name, rest', hcons⟩ := List.exists_cons_of_ne_nil (List.concat_ne_nil v.name rest)
    refine ⟨name, rest', ?_⟩
    rw [names, ← hrest, List.append_assoc, List.append_assoc, hcons]
    rfl
  · rintro ⟨name, hname⟩
    obtain ⟨rfl, -⟩ | hname := v.prefix_names_iff.1 hname
    · exact List.prefix_refl _
    · exact (List.prefix_append _ _).trans hname

/-- What a walk along links meets : a directory, a link that leads nowhere or back, or an entry that
is or leads to something else. -/
inductive Meets (t : Tree) (root : Path) : Visit → Prop where
  | entered {front : List Name} {name : Name} : t.Walked root (front ++ [name]) →
      Meets t root ⟨front, name, none⟩
  | broken {front : List Name} {name : Name} {target : Path} {cause : Cause} : t.Walked root front →
      t.Lists (below root front) name (.link target) →
      t.resolve (below root (front ++ [name])) = .error cause →
      Meets t root ⟨front, name, some (.failed (below root (front ++ [name])) (.system cause))⟩
  | loop {front before : List Name} {name : Name} : t.Walked root front →
      t.LeadsBack root front name before →
      Meets t root
        ⟨front, name, some (.failed (below root (front ++ [name])) (.loop (below root before)))⟩
  | entry {front : List Name} {name : Name} {e : Entry} {place : Place} : t.Walked root front →
      t.Lists (below root front) name e →
      t.resolve (below root (front ++ [name])) = .ok place → t.get? place ≠ some .directory →
      Meets t root ⟨front, name, some (.entry (below root (front ++ [name])) name)⟩

namespace Meets

variable {v : Visit}

theorem walked (h : t.Meets root v) : t.Walked root v.front := by
  cases h with
  | entered h => exact h.of_prefix (List.prefix_append _ _)
  | broken h | loop h | entry h => exact h

/-- What is met is an entry of its directory. -/
theorem exists_entry (h : t.Meets root v) (hplace : t.resolve (below root v.front) = .ok place) :
    ∃ e, t.get? (v.name :: place) = some e := by
  have hlists : ∀ {e}, t.Lists (below root v.front) v.name e →
      ∃ e, t.get? (v.name :: place) = some e := by
    rintro e ⟨q, hq, he⟩
    obtain rfl := Except.ok.inj (hq.symm.trans hplace)
    exact ⟨e, he⟩
  cases h with
  | entered h =>
    obtain ⟨q, hq, -⟩ := h.exists_place
    rw [below_concat] at hq
    exact exists_entry_of_resolve_join hplace (walked_concat_iff.1 h).2.1 hq
  | broken _ h | entry _ h => exact hlists h
  | loop _ h => exact hlists h.link.choose_spec

theorem exists_entry_of_prefix (h : t.Meets root v)
    (hplace : t.resolve (below root front) = .ok place) (hname : front ++ [name] <+: v.names) :
    ∃ e, t.get? (name :: place) = some e := by
  obtain ⟨rfl, rfl⟩ | hname := v.prefix_names_iff.1 hname
  · exact h.exists_entry hplace
  · exact (entered (h.walked.of_prefix hname)).exists_entry hplace

/-- What is found at a name is determined by the tree. -/
theorem unique {found found' : Option Found} (h : t.Meets root ⟨front, name, found⟩)
    (h' : t.Meets root ⟨front, name, found'⟩) : found = found' := by
  cases h with
  | entered hwalked =>
    obtain ⟨place, hplace, hdirectory⟩ := hwalked.exists_place
    cases h' with
    | entered => rfl
    | loop _ hback => exact absurd hback ((walked_concat_iff.1 hwalked).2.2.2 _)
    | broken | entry => simp_all
  | broken _ _ herror =>
    cases h' with
    | broken _ _ herror' => rw [Except.error.inj (herror.symm.trans herror')]
    | entered hwalked =>
      obtain ⟨place, hplace, -⟩ := hwalked.exists_place
      simp_all
    | loop hfront hback =>
      obtain ⟨place, hplace, -⟩ := hback.exists_place hfront
      simp_all
    | entry => simp_all
  | loop hfront hback =>
    obtain ⟨place, hplace, hdirectory⟩ := hback.exists_place hfront
    cases h' with
    | loop _ hback' => rw [hback.unique hback']
    | entered hwalked => exact absurd hback ((walked_concat_iff.1 hwalked).2.2.2 _)
    | broken | entry => simp_all
  | entry _ _ hplace hother =>
    cases h' with
    | entry => rfl
    | entered hwalked =>
      obtain ⟨place, hplace', hdirectory⟩ := hwalked.exists_place
      simp_all
    | loop hfront hback =>
      obtain ⟨place, hplace', hdirectory⟩ := hback.exists_place hfront
      simp_all
    | broken => simp_all

/-- A visit that finds something is the only one from its name on. -/
theorem eq_of_prefix {found : Found} (h : t.Meets root ⟨front, name, some found⟩)
    (h' : t.Meets root v) (hname : front ++ [name] <+: v.names) :
    v = ⟨front, name, some found⟩ := by
  obtain ⟨hfront, hname⟩ | hname := v.prefix_names_iff.1 hname
  · obtain ⟨front', name', found'⟩ := v
    subst hfront hname
    rw [h.unique h']
  · cases h.unique (.entered (h'.walked.of_prefix hname))

theorem proper (h : t.Meets root v) (hnamed : t.WellNamed) : ∀ name ∈ v.names, Proper name := by
  obtain ⟨place, hplace, -⟩ := h.walked.exists_place
  obtain ⟨e, he⟩ := h.exists_entry hplace
  intro name hname
  rcases List.mem_append.1 hname with hname | hname
  · exact h.walked.proper name hname
  · rw [List.mem_singleton.1 hname]
    exact Lists.proper ⟨place, hplace, he⟩ hnamed

end Meets

/-- Whatever a name in a directory that is walked leads to, it is met. -/
theorem Walked.exists_meets (h : t.Walked root front) (hnamed : t.WellNamed)
    (hlists : t.Lists (below root front) name e) : ∃ found, t.Meets root ⟨front, name, found⟩ := by
  cases hpath : t.resolve (below root (front ++ [name])) with
  | error cause =>
    cases e with
    | link target => exact ⟨_, .broken h hlists hpath⟩
    | file | directory =>
      obtain ⟨place, hplace, he⟩ := hlists
      simp [h.resolve_concat hnamed hplace he (by simp)] at hpath
  | ok q =>
    by_cases hdirectory : t.get? q = some .directory
    · by_cases hback : ∃ before, t.LeadsBack root front name before
      · obtain ⟨before, hback⟩ := hback
        exact ⟨_, .loop h hback⟩
      · have hpath := isDirectory_iff_exists.2 ⟨q, hpath, hdirectory⟩
        have hwalked := walked_concat_iff.2 ⟨h, hlists.proper hnamed, hpath, not_exists.1 hback⟩
        exact ⟨none, .entered hwalked⟩
    · exact ⟨_, .entry h hlists hpath hdirectory⟩

end

end Tree

end Rulebook
