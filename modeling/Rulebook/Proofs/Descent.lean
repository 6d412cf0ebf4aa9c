import Mathlib.Data.List.Basic
import Rulebook.Proofs.Naming

/-!
# Paths below a directory

The names that lead down from a directory make a path, joined to the path of the directory
(`Tree.below`). If no name on the way stands for something else, as `..` does, the path leads
where the names lead (`Tree.resolve_below`), and other names make another path
(`Tree.below_injective`). The way to the directory may lead along links; what it leads to does
not depend on what comes after it (`Tree.exists_links_follow_stem`).
-/

namespace Rulebook

namespace Text

/-! ## Pieces between marks -/

variable {α : Type} [DecidableEq α]

theorem splitAt_of_not_mem {mark : α} {s : List α} (h : mark ∉ s) : splitAt mark s = [s] := by
  induction s with
  | nil => rfl
  | cons c s ih =>
    obtain ⟨hc, hs⟩ := not_or.1 (mt List.mem_cons.2 h)
    rw [splitAt, if_neg (Ne.symm hc), ih hs]

theorem splitAt_append (mark : α) (s t : List α) :
    splitAt mark (s ++ mark :: t) = splitAt mark s ++ splitAt mark t := by
  induction s with
  | nil => simp [splitAt]
  | cons c s ih =>
    by_cases hc : c = mark
    · simp [splitAt, hc, ih]
    · rw [List.cons_append, splitAt, splitAt, if_neg hc, if_neg hc, ih]
      cases hs : splitAt mark s with
      | nil => exact absurd hs (splitAt_ne_nil mark s)
      | cons piece pieces => rfl

end Text

namespace Tree

open Text

/-! ## Joined paths -/

/-- The steps to what a path names, without the slash that may stand at its end. -/
def stem (path : Path) : List Step :=
  if path.getLast? = some Path.slash then Step.ofPath path.dropLast else Step.ofPath path

/-- The path of what names lead to, one after another, from a path on. -/
def below (path : Path) (names : List Name) : Path := names.foldl join path

theorem ofPath_append {path : Path} {name : Name} (h : Proper name) :
    Step.ofPath (path ++ Path.slash :: name) = Step.ofPath path ++ [.down name] := by
  rw [Step.ofPath, splitAt_append, splitAt_of_not_mem h.no_slash, List.map_append, ← Step.ofPath,
    List.map_singleton, h.ofPiece]

theorem ofPath_eq_stem (path : Path) :
    Step.ofPath path = stem path ∨ Step.ofPath path = stem path ++ [.slash] := by
  by_cases hlast : path.getLast? = some Path.slash
  · right
    have hpath := List.dropLast_append_getLast? _ hlast
    rw [stem, if_pos hlast]
    conv => lhs; rw [← hpath, Step.ofPath, splitAt_append]
    simp [Step.ofPath, splitAt, Step.ofPiece]
  · left
    rw [stem, if_neg hlast]

theorem join_ne_nil {path : Path} (h : path ≠ []) (name : Name) : join path name ≠ [] := by
  unfold join
  split <;> simp [h]

theorem below_ne_nil {path : Path} (h : path ≠ []) (names : List Name) : below path names ≠ [] := by
  induction names generalizing path with
  | nil => exact h
  | cons name rest ih => exact ih (join_ne_nil h name)

/-- The steps to an entry are those to its directory and one down. -/
theorem ofPath_join {path : Path} {name : Name} (hpath : path ≠ []) (hname : Proper name) :
    Step.ofPath (join path name) = stem path ++ [.down name] := by
  by_cases hlast : path.getLast? = some Path.slash
  · rw [join, if_pos (Or.inr hlast), stem, if_pos hlast]
    conv => lhs; rw [← List.dropLast_append_getLast? _ hlast]
    rw [List.append_assoc, List.singleton_append, ofPath_append hname]
  · rw [join, if_neg (by simp [hpath, hlast]), stem, if_neg hlast, ofPath_append hname]

theorem stem_join (path : Path) {name : Name} (hname : Proper name) :
    stem (join path name) = Step.ofPath (join path name) := by
  refine if_neg fun hlast => hname.no_slash ?_
  have hmem : Path.slash ∈ name.getLast? := by
    unfold join at hlast
    split at hlast
    · rwa [List.getLast?_append_of_ne_nil _ hname.ne_nil] at hlast
    · rwa [List.getLast?_append_of_ne_nil _ (List.cons_ne_nil _ _),
        List.getLast?_cons_of_ne_nil hname.ne_nil] at hlast
  exact List.mem_of_mem_getLast? hmem

/-- Below a directory the steps are those to the directory and then the names. -/
theorem ofPath_below {path : Path} {names : List Name} (hpath : path ≠ []) (hnames : names ≠ [])
    (hproper : ∀ name ∈ names, Proper name) :
    Step.ofPath (below path names) = stem path ++ names.map .down := by
  induction names generalizing path with
  | nil => exact absurd rfl hnames
  | cons name rest ih =>
    obtain ⟨hname, hrest⟩ := List.forall_mem_cons.1 hproper
    have hjoin := ofPath_join hpath hname
    rw [below, List.foldl_cons, ← below]
    by_cases hnil : rest = []
    · subst hnil
      exact hjoin
    · rw [ih (join_ne_nil hpath name) hnil hrest, stem_join path hname, hjoin]
      simp

/-- Other names make another path. -/
theorem below_injective {path : Path} {a b : List Name} (hpath : path ≠ []) (ha : a ≠ [])
    (hb : b ≠ []) (hproperA : ∀ name ∈ a, Proper name) (hproperB : ∀ name ∈ b, Proper name)
    (h : below path a = below path b) : a = b := by
  have hsteps := congrArg Step.ofPath h
  rw [ofPath_below hpath ha hproperA, ofPath_below hpath hb hproperB] at hsteps
  exact List.map_injective_iff.2 (fun _ _ => Step.down.inj) (List.append_cancel_left hsteps)

theorem start_below (directory : Place) {path : Path} (hpath : path ≠ []) (names : List Name) :
    start directory (below path names) = start directory path := by
  induction names generalizing path with
  | nil => rfl
  | cons name rest ih =>
    rw [below, List.foldl_cons, ← below, ih (join_ne_nil hpath name)]
    cases path with
    | nil => exact absurd rfl hpath
    | cons c path =>
      unfold join
      by_cases hc : c = Path.slash
      · subst hc
        split <;> rfl
      · split <;> simp [start, hc]

/-! ## Where they lead -/

/-- What comes after steps is followed from where they lead, whatever it is, or not at all if they
do not lead to an entry. -/
theorem follow_append (t : Tree) (links : Nat) (place : Place) (steps : List Step) :
    (∃ left q, t.follow false links place steps = .ok (.taken q) ∧
      ∀ rest, t.follow false links place (steps ++ rest) = t.follow false left q rest) ∨
    ((∀ q, t.follow false links place steps ≠ .ok (.taken q)) ∧
      ∀ rest, rest ≠ [] → ∃ cause, t.follow false links place (steps ++ rest) = .error cause) := by
  fun_induction t.follow false links place steps with
  | case1 links place => exact Or.inl ⟨links, place, rfl, fun rest => rfl⟩
  | case2 links place step steps hplace =>
    exact Or.inr ⟨by simp, fun rest _ => ⟨_, follow_of_not_directory step hplace⟩⟩
  | case3 links place steps hplace ih =>
    simpa only [List.cons_append, follow_slash (Decidable.not_not.1 hplace)] using ih
  | case4 links place steps hplace ih =>
    simpa only [List.cons_append, follow_here (Decidable.not_not.1 hplace)] using ih
  | case5 links place steps hplace ih =>
    simpa only [List.cons_append, follow_up (Decidable.not_not.1 hplace)] using ih
  | case6 links place steps hplace name h => simp at h
  | case7 links place steps hplace name _ he =>
    have hnone (rest) : t.follow false links place (.down name :: rest) = absent place name rest :=
      follow_down_none (Decidable.not_not.1 hplace) he
    refine Or.inr ⟨absent_ne_taken place name steps, fun rest hrest => ?_⟩
    obtain ⟨cause, hcause⟩ :=
      exists_absent_eq_error place name (List.append_ne_nil_of_right_ne_nil steps hrest)
    exact ⟨cause, (hnone _).trans hcause⟩
  | case8 place steps hplace name _ target he =>
    exact Or.inr ⟨by simp, fun rest _ => ⟨_, follow_down_link_zero (Decidable.not_not.1 hplace) he⟩⟩
  | case9 place steps hplace name _ target he links ih =>
    simpa only [List.cons_append, follow_down_link (Decidable.not_not.1 hplace) he,
      ← List.append_assoc] using ih
  | case10 links place steps hplace name _ e hlink he ih =>
    simpa only [List.cons_append, follow_down (Decidable.not_not.1 hplace) he hlink] using ih

/-- What is joined to a path that leads somewhere is followed from there, whether the path ends with
a slash or not. -/
theorem exists_links_follow_stem {t : Tree} {path : Path} {place : Place}
    (h : t.resolve path = .ok place) : path ≠ [] ∧ ∃ left, ∀ rest,
      t.follow false maxLinks (start t.home path) (stem path ++ rest) =
        t.follow false left place rest := by
  obtain ⟨hpath, hfind⟩ := find_eq_ok_iff.1 (resolve_eq_ok_iff.1 h)
  refine ⟨hpath, ?_⟩
  rcases follow_append t maxLinks (start t.home path) (stem path) with
    ⟨left, q, hq, hrest⟩ | ⟨hnot, hrest⟩
  · obtain rfl : q = place := by
      rcases ofPath_eq_stem path with hsteps | hsteps
      · simpa [hsteps, hq] using hfind
      · rw [hsteps, hrest] at hfind
        by_cases hdirectory : t.get? q = some .directory
        · simpa [follow_slash hdirectory, follow_nil] using hfind
        · simp [follow_of_not_directory _ hdirectory] at hfind
    exact ⟨left, hrest⟩
  · rcases ofPath_eq_stem path with hsteps | hsteps
    · exact absurd (hsteps ▸ hfind) (hnot place)
    · obtain ⟨cause, hcause⟩ := hrest [.slash] (by simp)
      simp [hsteps, hcause] at hfind

/-- Names lead from a place through directories, no links among them, to something that is there. -/
structure Reached (t : Tree) (place : Place) (names : List Name) : Prop where
  ne_nil : names ≠ []
  directories : ∀ before after, names = before ++ after → after ≠ [] →
    t.get? (before.reverse ++ place) = some .directory
  exists_entry : ∃ e, t.get? (names.reverse ++ place) = some e

theorem Reached.directory {t : Tree} {place : Place} {names : List Name}
    (h : t.Reached place names) : t.get? place = some .directory :=
  h.directories [] names rfl h.ne_nil

theorem Reached.proper {t : Tree} {place : Place} {names : List Name} (hnamed : t.WellNamed)
    (h : t.Reached place names) : ∀ name ∈ names, Proper name := by
  obtain ⟨e, he⟩ := h.exists_entry
  exact fun name hname => hnamed.entries _ e he name (by simp [hname])

/-- What is reached along names is an entry of the first directory, or is reached from it. -/
theorem reached_cons_iff {t : Tree} {place : Place} {name : Name} {rest : List Name} :
    t.Reached place (name :: rest) ↔ t.get? place = some .directory ∧
      ((rest = [] ∧ ∃ e, t.get? (name :: place) = some e) ∨ t.Reached (name :: place) rest) := by
  constructor
  · intro h
    refine ⟨h.directory, ?_⟩
    by_cases hnil : rest = []
    · subst hnil
      exact Or.inl ⟨rfl, h.exists_entry⟩
    · refine Or.inr ⟨hnil, fun before after hsplit hafter => ?_, ?_⟩
      · simpa using h.directories (name :: before) after (by simp [hsplit]) hafter
      · simpa using h.exists_entry
  · rintro ⟨hplace, ⟨rfl, hentry⟩ | hrest⟩
    · refine ⟨by simp, fun before after hsplit hafter => ?_, hentry⟩
      obtain ⟨rfl, -⟩ | ⟨-, rfl⟩ := List.singleton_eq_append_iff.1 hsplit
      · exact hplace
      · exact absurd rfl hafter
    · refine ⟨by simp, fun before after hsplit hafter => ?_, by simpa using hrest.exists_entry⟩
      cases before with
      | nil => exact hplace
      | cons first before =>
        obtain ⟨rfl, hinner⟩ := List.cons_eq_cons.1 hsplit
        simpa using hrest.directories before after hinner hafter

/-- Names along real directories are followed one by one. -/
theorem follow_map_down {t : Tree} {place : Place} {names : List Name} {e : Entry} (links : Nat)
    (h : t.Reached place names) (he : t.get? (names.reverse ++ place) = some e)
    (hlink : ∀ target, e ≠ .link target) :
    t.follow false links place (names.map .down) = .ok (.taken (names.reverse ++ place)) := by
  induction names generalizing place with
  | nil => exact absurd rfl h.ne_nil
  | cons name rest ih =>
    obtain ⟨hplace, ⟨rfl, -⟩ | hrest⟩ := reached_cons_iff.1 h
    · rw [List.map_singleton, follow_down hplace he hlink, follow_nil]
      rfl
    · rw [List.map_cons, follow_down hplace hrest.directory (by simp), ih hrest (by simpa using he)]
      simp

/-- Unless it is a link, what names lead to is what their path leads to. -/
theorem resolve_below {t : Tree} {root : Path} {place : Place} {names : List Name} {e : Entry}
    (hnamed : t.WellNamed) (hroot : t.resolve root = .ok place) (h : t.Reached place names)
    (he : t.get? (names.reverse ++ place) = some e) (hlink : ∀ target, e ≠ .link target) :
    t.resolve (below root names) = .ok (names.reverse ++ place) := by
  obtain ⟨hpath, left, hleft⟩ := exists_links_follow_stem hroot
  have hproper := h.proper hnamed
  rw [resolve_eq_ok_iff, find_of_ne_nil (below_ne_nil hpath names), start_below _ hpath,
    ofPath_below hpath h.ne_nil hproper, hleft, follow_map_down left h he hlink]

end Tree

end Rulebook
