import Mathlib
import Rulebook.Proofs.Collection
import Rulebook.Proofs.Footprint

/-!
# Files that are not selected

Two trees may differ in files whose names do not end with the selected suffix, if neither the root
nor a link leads through them (`Tree.Alike`). A walk comes by these files, but nothing is collected
at their names (`SourceFile.filterMap_foundAt_of_plain`). At all other names it finds the same in
both trees, because the paths on its way ask for the same (`Tree.Enters`). So the same files are
collected, with the same texts and errors (`SourceFile.collect_eq_of_alike`), and the same grammar
is loaded from them.
-/

namespace Rulebook

namespace Tree

open Text

/-! ## The walk, name by name -/

/-- What a walk finds at one name in the directory that was entered last, and below it. -/
def foundAt (t : Tree) (followLinks : Bool) (chain : Chain) (place : Place) (path : Path)
    (name : Name) : List Found :=
  match t.get? (name :: place) with
  | none => []
  | some .directory =>
    t.walkBelow followLinks ((name :: place, join path name) :: chain) (name :: place)
      (join path name)
  | some (.file _) => [.entry (join path name) name]
  | some (.link _) =>
    if followLinks then
      match t.resolve (join path name) with
      | .error cause => [.failed (join path name) (.system cause)]
      | .ok target =>
        match t.get? target with
        | some .directory =>
          match chain.find? (·.1 = target) with
          | some (_, ancestor) => [.failed (join path name) (.loop ancestor)]
          | none =>
            t.walkBelow followLinks ((target, join path name) :: chain) target (join path name)
        | _ => [.entry (join path name) name]
    else [.entry (join path name) name]

section Walk

variable {t : Tree} {followLinks : Bool} {chain : Chain} {place q : Place}
  {path target : Path} {name : Name}

/-- What a walk finds in a directory is what it finds at each of its names. -/
theorem walkBelow_eq_flatMap : t.walkBelow followLinks chain place path =
    (t.names place).flatMap (t.foundAt followLinks chain place path) :=
  walkBelow_eq t followLinks chain place path

theorem foundAt_none (he : t.get? (name :: place) = none) :
    t.foundAt followLinks chain place path name = [] := by
  rw [foundAt, he]

theorem foundAt_file {contents : ByteArray} (he : t.get? (name :: place) = some (.file contents)) :
    t.foundAt followLinks chain place path name = [.entry (join path name) name] := by
  rw [foundAt, he]

theorem foundAt_directory (he : t.get? (name :: place) = some .directory) :
    t.foundAt followLinks chain place path name =
      t.walkBelow followLinks ((name :: place, join path name) :: chain) (name :: place)
        (join path name) := by
  rw [foundAt, he]

theorem foundAt_link_false (he : t.get? (name :: place) = some (.link target)) :
    t.foundAt false chain place path name = [.entry (join path name) name] := by
  rw [foundAt, he]
  rfl

/-- A link that leads nowhere is found as a failure. -/
theorem foundAt_broken {cause : Cause} (he : t.get? (name :: place) = some (.link target))
    (hpath : t.resolve (join path name) = .error cause) :
    t.foundAt true chain place path name = [.failed (join path name) (.system cause)] := by
  rw [foundAt, he, hpath]
  rfl

theorem foundAt_leading (he : t.get? (name :: place) = some (.link target))
    (hpath : t.resolve (join path name) = .ok q) (hq : t.get? q ≠ some .directory) :
    t.foundAt true chain place path name = [.entry (join path name) name] := by
  rw [foundAt, he, hpath]
  dsimp only
  rw [if_pos rfl]
  split
  · next hdirectory => exact absurd hdirectory hq
  · rfl

/-- A link back to a directory on the way is found as a loop. -/
theorem foundAt_loop {ancestor : Path} {p : Place}
    (he : t.get? (name :: place) = some (.link target))
    (hpath : t.resolve (join path name) = .ok q) (hq : t.get? q = some .directory)
    (hfind : chain.find? (·.1 = q) = some (p, ancestor)) :
    t.foundAt true chain place path name = [.failed (join path name) (.loop ancestor)] := by
  rw [foundAt, he, hpath]
  dsimp only
  rw [if_pos rfl, hq, hfind]

/-- A link to a directory that is not on the way is entered. -/
theorem foundAt_entering (he : t.get? (name :: place) = some (.link target))
    (hpath : t.resolve (join path name) = .ok q) (hq : t.get? q = some .directory)
    (hfind : chain.find? (·.1 = q) = none) :
    t.foundAt true chain place path name =
      t.walkBelow true ((q, join path name) :: chain) q (join path name) := by
  rw [foundAt, he, hpath]
  dsimp only
  rw [if_pos rfl, hq, hfind]

end Walk

/-- What is found in a directory is put together from its names in their order, so that only those
count at which something is found. -/
theorem flatMap_eq_flatMap {α : Type} {a b : List Name} {f : Name → List α}
    (ha : a.Pairwise (· < ·)) (hb : b.Pairwise (· < ·))
    (hf : ∀ name, f name ≠ [] → (name ∈ a ↔ name ∈ b)) : a.flatMap f = b.flatMap f := by
  have hkept : ∀ names : List Name,
      names.flatMap f = (names.filter fun name => !(f name).isEmpty).flatMap f := by
    intro names
    rw [List.flatMap_def, List.flatMap_def, ← List.flatten_filter_not_isEmpty, List.filter_map]
    rfl
  rw [hkept a, hkept b]
  refine congrArg (List.flatMap f) ((ha.filter _).eq_of_mem_iff (hb.filter _) fun name => ?_)
  simp only [List.mem_filter, Bool.not_eq_true', List.isEmpty_eq_false_iff]
  exact and_congr_left (hf name)

/-! ## Trees alike -/

/-- Nothing lies at the place but perhaps a regular file. -/
def Plain (t : Tree) (p : Place) : Prop := ∀ e, t.get? p = some e → ∃ contents, e = .file contents

/-- Two trees differ only in regular files whose names do not end with the suffix, and these are
asked for neither by the path of the root nor by a link. What is said of links in the one tree
holds in the other, which has the same links and asks for the same. -/
structure Alike (t u : Tree) (suffix : Text) (root : Path) : Prop where
  home : u.home = t.home
  plain : ∀ p, u.get? p ≠ t.get? p → t.Plain p ∧ u.Plain p
  unselected : ∀ p, u.get? p ≠ t.get? p → ∀ name ∈ p.head?, ¬ suffix.bytes <:+ name
  root : ∀ p ∈ t.askedBy root, u.get? p = t.get? p
  links : ∀ name directory target, t.get? (name :: directory) = some (.link target) →
    ∀ p ∈ t.asked maxLinks directory [.down name], u.get? p = t.get? p

/-- A path leads to a directory, and what it asks for is the same in both trees. -/
structure Enters (t u : Tree) (path : Path) (place : Place) : Prop where
  resolve : t.resolve path = .ok place
  directory : t.get? place = some .directory
  asked : ∀ p ∈ t.askedBy path, u.get? p = t.get? p

section Alike

variable {t u : Tree} {suffix : Text} {root path : Path} {name : Name} {place : Place}

theorem Plain.of_get? {p : Place} {e : Entry} (h : t.Plain p) (he : t.get? p = some e)
    (hfile : ∀ contents, e ≠ .file contents) : False := by
  obtain ⟨contents, rfl⟩ := h e he
  exact hfile contents rfl

/-- Directories and links are the same in both trees. -/
theorem Alike.get?_eq {p : Place} {e : Entry} (h : t.Alike u suffix root) (he : t.get? p = some e)
    (hfile : ∀ contents, e ≠ .file contents) : u.get? p = some e := by
  by_contra hne
  exact (h.plain p (he ▸ hne)).1.of_get? he hfile

theorem Alike.isDirectory_eq (h : t.Alike u suffix root) :
    u.isDirectory root = t.isDirectory root := by
  rw [isDirectory, isDirectory, lookUp_congr h.home h.root]

/-- A path that is made longer by a name at which the trees are the same asks for the same. -/
theorem Alike.get?_of_mem_askedBy_join (h : t.Alike u suffix root) (hpath : t.Enters u path place)
    (hname : Proper name) (hsame : u.get? (name :: place) = t.get? (name :: place)) :
    ∀ p ∈ t.askedBy (join path name), u.get? p = t.get? p := by
  intro p hp
  rcases mem_askedBy_join hpath.resolve hname hp with hp | hp
  · exact hpath.asked p hp
  have hplace : u.get? place = t.get? place :=
    (h.get?_eq hpath.directory (by simp)).trans hpath.directory.symm
  have hpair : p ∈ [place, name :: place] → u.get? p = t.get? p := by
    simp only [List.mem_cons, List.not_mem_nil, or_false]
    rintro (rfl | rfl)
    · exact hplace
    · exact hsame
  cases he : t.get? (name :: place) with
  | none => exact hpair (asked_down_none hpath.directory he ▸ hp)
  | some e =>
    cases e with
    | link target => exact h.links name place target he p hp
    | file | directory =>
      rw [asked_down hpath.directory he (by simp), asked_nil] at hp
      exact hpair hp

/-- A directory below one that both trees enter is entered in both. -/
theorem Enters.join (hpath : t.Enters u path place) (h : t.Alike u suffix root)
    (hnamed : t.WellNamed) (he : t.get? (name :: place) = some .directory) :
    t.Enters u (join path name) (name :: place) where
  resolve := resolve_below hnamed hpath.resolve
    (reached_cons_iff.2 ⟨hpath.directory, .inl ⟨rfl, _, he⟩⟩) he (by simp)
  directory := he
  asked := h.get?_of_mem_askedBy_join hpath (hnamed.entries _ _ he name List.mem_cons_self)
    ((h.get?_eq he (by simp)).trans he.symm)

/-- A tree is like itself with a file put where no path that counts asks for it. -/
theorem alike_put {q : Place} (hplain : t.Plain q)
    (hname : ∀ name ∈ q.head?, ¬ suffix.bytes <:+ name)
    (hroot : q ∉ t.askedBy root)
    (hlinks : ∀ name directory target, t.get? (name :: directory) = some (.link target) →
      q ∉ t.asked maxLinks directory [.down name]) (contents : ByteArray) :
    t.Alike (t.put q (.file contents)) suffix root := by
  have hput := fun p (hne : p ≠ q) => get?_put_of_ne t (.file contents) hne
  have hdiffers : ∀ p, (t.put q (.file contents)).get? p ≠ t.get? p → p = q := fun p hp => by
    by_contra hne
    exact hp (hput p hne)
  have hnil : q ≠ [] := by
    rintro rfl
    exact hplain.of_get? rfl (by simp)
  have hplain' : (t.put q (.file contents)).Plain q := fun e he =>
    ⟨contents, Option.some.inj (he.symm.trans (get?_put_self t _ hnil))⟩
  refine ⟨rfl, fun p hp => ?_, fun p hp => ?_, fun p hp => hput p ?_, ?_⟩
  · obtain rfl := hdiffers p hp
    exact ⟨hplain, hplain'⟩
  · obtain rfl := hdiffers p hp
    exact hname
  · rintro rfl
    exact hroot hp
  · intro name directory target he p hp
    refine hput p ?_
    rintro rfl
    exact hlinks name directory target he hp

end Alike

end Tree

namespace SourceFile

open Rulebook.Tree Rulebook.Text

variable {t u : Tree} {settings : SourceSettings} {path root : Path} {name : Name} {place : Place}

/-- What is collected at a path is the same in trees that look the same to the path. -/
theorem ofFound_congr (hhome : u.home = t.home) (h : ∀ p ∈ t.askedBy path, u.get? p = t.get? p) :
    ofFound u settings (.entry path name) = ofFound t settings (.entry path name) := by
  have hlookUp := lookUp_congr hhome h
  have hread : Tree.read u path = Tree.read t path := by rw [Tree.read, Tree.read, hlookUp]
  rw [ofFound, ofFound, isFile, isFile, read, read, hlookUp, hread]

/-- At the name of a file that is not selected nothing is collected. -/
theorem filterMap_foundAt_of_plain {followLinks : Bool} {chain : Chain}
    (hplain : t.Plain (name :: place)) (hname : ¬ settings.suffix.bytes <:+ name) :
    (t.foundAt followLinks chain place path name).filterMap (ofFound t settings) = [] := by
  cases he : t.get? (name :: place) with
  | none => rw [foundAt_none he, List.filterMap_nil]
  | some e =>
    obtain ⟨contents, rfl⟩ := hplain e he
    have hselects : ¬ settings.selects name = true := fun h =>
      hname (SourceSettings.selects_iff.1 h).2
    rw [foundAt_file he, List.filterMap_cons, ofFound, if_neg fun h => hselects h.1,
      List.filterMap_nil]

/-- At a link the same is collected, if it is in a directory that is entered there. -/
theorem filterMap_foundAt_of_link {followLinks : Bool} {chain : Chain} {target : Path}
    (hhome : u.home = t.home) (he : t.get? (name :: place) = some (.link target))
    (he' : u.get? (name :: place) = some (.link target))
    (hasked : ∀ p ∈ t.askedBy (join path name), u.get? p = t.get? p)
    (hbelow : ∀ q, followLinks = true → chain.find? (·.1 = q) = none →
      t.Enters u (join path name) q →
        (t.walkBelow true ((q, join path name) :: chain) q (join path name)).filterMap
            (ofFound t settings) =
          (u.walkBelow true ((q, join path name) :: chain) q (join path name)).filterMap
            (ofFound u settings)) :
    (t.foundAt followLinks chain place path name).filterMap (ofFound t settings) =
      (u.foundAt followLinks chain place path name).filterMap (ofFound u settings) := by
  have hentry : ofFound u settings (.entry (join path name) name) =
      ofFound t settings (.entry (join path name) name) := ofFound_congr hhome hasked
  cases followLinks with
  | false =>
    rw [foundAt_link_false he, foundAt_link_false he', List.filterMap_cons, List.filterMap_cons,
      hentry]
    rfl
  | true =>
    have hresolve := resolve_congr hhome hasked
    cases hq : t.resolve (join path name) with
    | error cause =>
      rw [foundAt_broken he hq, foundAt_broken he' (hresolve.trans hq)]
      rfl
    | ok q =>
      have hresolve := hresolve.trans hq
      have hq' : u.get? q = t.get? q := by
        obtain ⟨before, hlast, -⟩ := exists_askedBy_eq hq
        exact hasked q (by simp [hlast])
      by_cases hdirectory : t.get? q = some .directory
      · have hdirectory' := hq'.trans hdirectory
        cases hfind : chain.find? (·.1 = q) with
        | some ancestor =>
          rw [foundAt_loop he hq hdirectory hfind, foundAt_loop he' hresolve hdirectory' hfind]
          rfl
        | none =>
          rw [foundAt_entering he hq hdirectory hfind,
            foundAt_entering he' hresolve hdirectory' hfind]
          exact hbelow q rfl hfind ⟨hq, hdirectory, hasked⟩
      · rw [foundAt_leading he hq hdirectory, foundAt_leading he' hresolve (hq' ▸ hdirectory),
          List.filterMap_cons, List.filterMap_cons, hentry]
        rfl

/-- A walk collects the same in trees that are alike. -/
theorem filterMap_walkBelow_of_alike (h : t.Alike u settings.suffix root) (hnamed : t.WellNamed)
    (followLinks : Bool) (chain : Chain) {place : Place} {path : Path}
    (hpath : t.Enters u path place) :
    (t.walkBelow followLinks chain place path).filterMap (ofFound t settings) =
      (u.walkBelow followLinks chain place path).filterMap (ofFound u settings) := by
  -- Where the trees differ nothing is collected in either, so the names listed make no difference.
  have hdiffers : ∀ name, u.get? (name :: place) ≠ t.get? (name :: place) →
      (t.foundAt followLinks chain place path name).filterMap (ofFound t settings) = [] ∧
      (u.foundAt followLinks chain place path name).filterMap (ofFound u settings) = [] := by
    intro name hne
    obtain ⟨hplain, hplain'⟩ := h.plain _ hne
    have hname := h.unselected _ hne name rfl
    exact ⟨filterMap_foundAt_of_plain hplain hname, filterMap_foundAt_of_plain hplain' hname⟩
  have hfound : ∀ name,
      (t.foundAt followLinks chain place path name).filterMap (ofFound t settings) =
        (u.foundAt followLinks chain place path name).filterMap (ofFound u settings) := by
    intro name
    by_cases hsame : u.get? (name :: place) = t.get? (name :: place)
    · cases he : t.get? (name :: place) with
      | none =>
        rw [foundAt_none he, foundAt_none (hsame.trans he), List.filterMap_nil, List.filterMap_nil]
      | some e =>
        have hproper := hnamed.entries _ e he name List.mem_cons_self
        have hasked := h.get?_of_mem_askedBy_join hpath hproper hsame
        cases e with
        | file contents =>
          rw [foundAt_file he, foundAt_file (hsame.trans he), List.filterMap_cons,
            List.filterMap_cons, ofFound_congr h.home hasked]
          rfl
        | directory =>
          rw [foundAt_directory he, foundAt_directory (hsame.trans he)]
          exact filterMap_walkBelow_of_alike h hnamed followLinks _ (hpath.join h hnamed he)
        | link target =>
          refine filterMap_foundAt_of_link h.home he (hsame.trans he) hasked ?_
          intro q hfollow hfind henters
          exact filterMap_walkBelow_of_alike h hnamed true _ henters
    · obtain ⟨hnothing, hnothing'⟩ := hdiffers name hsame
      rw [hnothing, hnothing']
  rw [walkBelow_eq_flatMap, walkBelow_eq_flatMap, List.filterMap_flatMap, List.filterMap_flatMap,
    funext hfound]
  refine flatMap_eq_flatMap (t.pairwise_names place) (u.pairwise_names place) fun name hne => ?_
  have hsame := Decidable.not_not.1 fun hsame => hne (hdiffers name hsame).2
  rw [mem_names, mem_names, hsame]
termination_by (t.unvisited chain, t.depth - place.length)
decreasing_by
  · exact Prod.Lex.left _ _ (unvisited_cons_lt _ henters.directory hfind)
  · exact measure_lt_of_get? (join path name) he

/-- The same is collected from trees that are alike. -/
theorem collect_eq_of_alike (h : t.Alike u settings.suffix root) (hnamed : t.WellNamed) :
    collect t settings root = collect u settings root := by
  have hresolve := resolve_congr h.home h.root
  have hdirectory := h.isDirectory_eq
  by_cases hroot : t.isDirectory root = true
  · obtain ⟨place, hplace, hentered⟩ := lookUp_eq_ok_iff.1 (isDirectory_iff.1 hroot)
    rw [collect, collect, if_pos hroot, if_pos (hdirectory.trans hroot), walk, walk, hresolve,
      hplace]
    exact congrArg _ (filterMap_walkBelow_of_alike h hnamed _ _ ⟨hplace, hentered, h.root⟩)
  · rw [collect, collect, if_neg hroot, if_neg (hdirectory ▸ hroot)]

end SourceFile

open Rulebook.Tree in
/-- Of two trees that differ only in regular files whose names do not end with the suffix, and that
neither the root nor a link leads through, the same files are collected, with the same errors,
whether links are followed or not. The grammar, or the error, is the same as well. -/
theorem load_of_alike {t u : Tree} {suffix : Text} {root : Path} (hnamed : t.WellNamed)
    (h : t.Alike u suffix root) {source : SourceSettings} (hsuffix : source.suffix = suffix) :
    SourceFile.collect t source root = SourceFile.collect u source root ∧
      ∀ parsing, Grammar.load t source parsing root = Grammar.load u source parsing root := by
  subst hsuffix
  have hcollect := SourceFile.collect_eq_of_alike h hnamed
  refine ⟨hcollect, fun parsing => ?_⟩
  rw [Grammar.load, Grammar.load, hcollect]

open Rulebook.Tree in
/-- A file beside the grammar files may hold bytes that are no text. The link in the same directory
does not lead through it, and the file below the link is collected as before. -/
theorem load_of_alike_beside :
    let t : Tree := ⟨[([.of "g"], .directory), ([.of "h"], .directory),
      ([.of "a.bnf", .of "g"], .file "<a> ::= <b>\n".toUTF8),
      ([.of "a.txt", .of "g"], .file "notes".toUTF8),
      ([.of "l", .of "g"], .link (.of "../h")),
      ([.of "b.bnf", .of "h"], .file "<b> ::= 'y'\n".toUTF8)], []⟩
    let u : Tree := t.put [.of "a.txt", .of "g"] (.file ⟨#[255]⟩)
    t.WellNamed ∧ t.Alike u ".bnf".toList (.of "g") ∧
      SourceSettings.suffix ⟨"..bnf".toList, true⟩ = ".bnf".toList ∧
      SourceFile.collect t ⟨"..bnf".toList, true⟩ (.of "g") =
        SourceFile.collect u ⟨"..bnf".toList, true⟩ (.of "g") ∧
      Grammar.load u ⟨"..bnf".toList, true⟩ {} (.of "g") =
        .ok ⟨[⟨"a".toList, "<b>".toList⟩, ⟨"b".toList, "'y'".toList⟩]⟩ := by
  intro t u
  have hnamed : t.WellNamed := .of_entries (by decide +kernel) (by decide)
  have halike : t.Alike u ".bnf".toList (.of "g") := by
    refine alike_put (fun e he => ?_) (by decide) ?_ (fun name directory target he => ?_) _
    · exact ⟨_, Option.some.inj (he.symm.trans rfl)⟩
    · have hasked : t.askedBy (.of "g") = [[], [.of "g"]] := by
        simp only [t]
        cbv
      rw [hasked]
      decide
    · have hmem := mem_of_get? (List.cons_ne_nil _ _) he
      simp only [t, List.mem_cons, Prod.mk.injEq, reduceCtorEq, and_false, List.not_mem_nil,
        or_false, false_or, List.cons.injEq] at hmem
      obtain ⟨⟨rfl, rfl⟩, -⟩ := hmem
      have hasked : t.asked maxLinks [.of "g"] [.down (.of "l")] =
          [[.of "g"], [.of "l", .of "g"], [.of "g"], [], [.of "h"]] := by
        simp only [t]
        cbv
      rw [hasked]
      decide
  have hsuffix : SourceSettings.suffix ⟨"..bnf".toList, true⟩ = ".bnf".toList := by decide
  obtain ⟨hcollect, hload⟩ := load_of_alike hnamed halike hsuffix
  have hgrammar : Grammar.load t ⟨"..bnf".toList, true⟩ {} (.of "g") =
      .ok ⟨[⟨"a".toList, "<b>".toList⟩, ⟨"b".toList, "'y'".toList⟩]⟩ := by
    simp only [t]
    cbv
  exact ⟨hnamed, halike, hsuffix, hcollect, (hload {}).symm.trans hgrammar⟩

end Rulebook
