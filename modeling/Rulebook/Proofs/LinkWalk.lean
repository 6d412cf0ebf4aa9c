import Rulebook.Proofs.Ways

/-!
# The walk along links

A walk that follows links makes all visits below its root, finitely many, in the order of the
names that lead there and each once (`Tree.finds_walkBelow`). It keeps the directories on the
way with their paths (`Tree.trail`) and looks a link's target up among them, so that it comes to
an end although the ways below a root may go round in circles.
-/

namespace Rulebook

namespace Tree

open Text

section

variable {t : Tree} {root : Path} {front before : List Name} {name : Name} {e : Entry}
  {place : Place}

/-! ## The directories on a way -/

/-- The directories on a way with their paths, the last one first. -/
def trail (t : Tree) (root : Path) (front : List Name) : Chain :=
  front.inits.reverse.map fun before =>
    ((t.resolve (below root before)).toOption.getD [], below root before)

theorem trail_nil (h : t.resolve root = .ok place) : t.trail root [] = [(place, root)] := by
  simp [trail, below, h, Except.toOption]

/-- One name more puts one directory more on the trail. -/
theorem trail_concat (h : t.resolve (below root (front ++ [name])) = .ok place) :
    t.trail root (front ++ [name]) =
      (place, below root (front ++ [name])) :: t.trail root front := by
  simp [trail, List.inits_append, h, Except.toOption]

/-- A directory is not on a way if no part of the way leads to it. -/
theorem resolve_ne_of_find?_trail {target : Place}
    (h : (t.trail root front).find? (·.1 = target) = none) (hbefore : before <+: front) :
    t.resolve (below root before) ≠ .ok target := by
  intro htarget
  refine List.find?_eq_none.1 h (target, below root before) ?_ (by simp)
  refine List.mem_map.2 ⟨before, by simpa using hbefore, ?_⟩
  rw [htarget]
  rfl

/-- A directory is found on a way with the path of the longest part of the way that leads to it. -/
theorem exists_of_find?_trail {target q : Place} {path : Path} (hfront : t.Walked root front)
    (h : (t.trail root front).find? (·.1 = target) = some (q, path)) : ∃ before, before <+: front ∧
      path = below root before ∧ t.resolve (below root before) = .ok target ∧
      ∀ other, other <+: front → t.resolve (below root other) = .ok target → other <+: before := by
  induction front using List.reverseRecOn with
  | nil =>
    obtain ⟨place, hplace, -⟩ := hfront.exists_place
    have hroot : t.resolve root = .ok place := hplace
    rw [trail_nil hroot, List.find?_singleton, Option.ite_none_right_eq_some,
      decide_eq_true_eq] at h
    obtain ⟨rfl, hfound⟩ := h
    refine ⟨[], List.prefix_refl [], ?_, hroot, fun other hother _ => hother⟩
    exact (Prod.mk.inj (Option.some.inj hfound)).2.symm
  | append_singleton front name ih =>
    obtain ⟨place, hplace, -⟩ := hfront.exists_place
    rw [trail_concat hplace, List.find?_cons] at h
    by_cases heq : place = target
    · subst heq
      simp only [decide_true, Option.some.injEq, Prod.mk.injEq] at h
      exact ⟨front ++ [name], List.prefix_refl _, h.2.symm, hplace, fun other hother _ => hother⟩
    · simp only [heq, decide_false] at h
      obtain ⟨before, hbefore, hpath, htarget, hlast⟩ := ih (walked_concat_iff.1 hfront).1 h
      refine ⟨before, hbefore.trans (List.prefix_append _ _), hpath, htarget,
        fun other hother hsame => ?_⟩
      rcases List.prefix_concat_iff.1 hother with rfl | hother
      · exact absurd (Except.ok.inj (hplace.symm.trans hsame)) heq
      · exact hlast other hother hsame

/-! ## The visits of a walk -/

/-- The names that lead below one name stand before those that lead below a greater one. -/
theorem lt_of_prefix {a b : List Name} {first second : Name} (hlt : first < second)
    (ha : front ++ [first] <+: a) (hb : front ++ [second] <+: b) : a < b := by
  obtain ⟨rest, rfl⟩ := ha
  obtain ⟨rest', rfl⟩ := hb
  rw [List.append_assoc, List.append_assoc]
  exact List.append_left_lt (List.Lex.rel hlt)

/-- The way to a directory that a visit passes comes before the visit. -/
theorem Visit.lt_names {v : Visit} (h : front <+: v.front) : front < v.names := by
  obtain ⟨rest, hrest⟩ := h
  obtain ⟨name, rest', hcons⟩ := List.exists_cons_of_ne_nil (List.concat_ne_nil v.name rest)
  rw [Visit.names, ← hrest, List.append_assoc, hcons]
  nth_rewrite 1 [← List.append_nil front]
  exact List.append_left_lt List.Lex.nil

/-- What was found is what is found at the visits among these, which are finitely many, each once
and in the order of their names. -/
def Finds (t : Tree) (root : Path) (among : Visit → Prop) (found : List Found) : Prop :=
  ∃ visits : List Visit, found = visits.filterMap Visit.found ∧
    visits.Pairwise (fun v w => v.names < w.names) ∧ ∀ v, v ∈ visits ↔ t.Meets root v ∧ among v

namespace Finds

theorem of_not_meets {among : Visit → Prop} (h : ∀ v, t.Meets root v → ¬ among v) :
    t.Finds root among [] :=
  ⟨[], rfl, List.Pairwise.nil, fun v => by simpa using h v⟩

/-- Nothing is found below what is not walked. -/
theorem of_not_walked (h : ¬ t.Walked root front) : t.Finds root (front <+: ·.front) [] :=
  of_not_meets fun _ hv hfront => h (hv.walked.of_prefix hfront)

/-- What is found at a name and then below it is all from that name on. -/
theorem cons {found : Option Found} {rest : List Found} (hv : t.Meets root ⟨front, name, found⟩)
    (hrest : t.Finds root (front ++ [name] <+: ·.front) rest) :
    t.Finds root (front ++ [name] <+: ·.names) (found.toList ++ rest) := by
  obtain ⟨visits, rfl, hsorted, hmem⟩ := hrest
  refine ⟨⟨front, name, found⟩ :: visits, ?_, ?_, fun v => ?_⟩
  · cases found <;> rfl
  · exact List.pairwise_cons.2 ⟨fun v hmem' => Visit.lt_names ((hmem v).1 hmem').2, hsorted⟩
  · rw [List.mem_cons, hmem]
    dsimp only
    rw [v.prefix_names_iff]
    constructor
    · rintro (rfl | ⟨hmeets, hbelow⟩)
      · exact ⟨hv, .inl ⟨rfl, rfl⟩⟩
      · exact ⟨hmeets, .inr hbelow⟩
    · rintro ⟨hmeets, heq | hbelow⟩
      · obtain ⟨front', name', found'⟩ := v
        obtain ⟨rfl, rfl⟩ := heq
        exact .inl (by rw [hmeets.unique hv])
      · exact .inr ⟨hmeets, hbelow⟩

/-- Nothing is found below a name that is not entered. -/
theorem singleton {found : Found} (hv : t.Meets root ⟨front, name, some found⟩) :
    t.Finds root (front ++ [name] <+: ·.names) [found] := by
  refine Finds.cons hv (of_not_walked fun hwalked => ?_)
  cases hv.unique (.entered hwalked)

/-- What is found name by name is all in the directory and below. -/
theorem flatMap {names : List Name} {found : Name → List Found} (hsorted : names.Pairwise (· < ·))
    (hnames : ∀ v, t.Meets root v → ∀ name, front ++ [name] <+: v.names → name ∈ names)
    (h : ∀ name, t.Finds root (front ++ [name] <+: ·.names) (found name)) :
    t.Finds root (front <+: ·.front) (names.flatMap found) := by
  choose visits hfound hpairwise hmem using h
  refine ⟨names.flatMap visits, ?_, ?_, fun v => ?_⟩
  · rw [List.filterMap_flatMap]
    exact congrArg (List.flatMap · names) (funext hfound)
  · refine List.pairwise_flatMap.2 ⟨fun name _ => hpairwise name, ?_⟩
    exact hsorted.imp fun hlt v hv w hw =>
      lt_of_prefix hlt ((hmem _ v).1 hv).2 ((hmem _ w).1 hw).2
  · rw [List.mem_flatMap]
    constructor
    · rintro ⟨name, -, hv⟩
      obtain ⟨hmeets, hname⟩ := (hmem name v).1 hv
      exact ⟨hmeets, v.prefix_front_iff.2 ⟨name, hname⟩⟩
    · rintro ⟨hmeets, hfront⟩
      obtain ⟨name, hname⟩ := v.prefix_front_iff.1 hfront
      exact ⟨name, hnames v hmeets name hname, (hmem name v).2 ⟨hmeets, hname⟩⟩

end Finds

/-- A directory in a directory is walked. -/
theorem Walked.concat_of_directory (h : t.Walked root front) (hnamed : t.WellNamed)
    (hplace : t.resolve (below root front) = .ok place)
    (he : t.get? (name :: place) = some .directory) : t.Walked root (front ++ [name]) := by
  have hpath := h.resolve_concat hnamed hplace he (by simp)
  have hlists : t.Lists (below root front) name .directory := ⟨place, hplace, he⟩
  refine walked_concat_iff.2 ⟨h, hlists.proper hnamed, ?_, ?_⟩
  · exact isDirectory_iff_exists.2 ⟨_, hpath, he⟩
  · rintro before ⟨⟨target, hlink⟩, -⟩
    cases hlink.unique hlists

/-- A link to a directory that is not on the way is walked. -/
theorem Walked.concat_of_link (h : t.Walked root front) (hnamed : t.WellNamed)
    (hlists : t.Lists (below root front) name e)
    (hpath : t.resolve (below root (front ++ [name])) = .ok place)
    (hdirectory : t.get? place = some .directory)
    (hfind : (t.trail root front).find? (·.1 = place) = none) :
    t.Walked root (front ++ [name]) := by
  refine walked_concat_iff.2 ⟨h, hlists.proper hnamed, ?_, ?_⟩
  · exact isDirectory_iff_exists.2 ⟨_, hpath, hdirectory⟩
  · intro before hback
    exact resolve_ne_of_find?_trail hfind hback.on_way (hback.same.trans hpath)

/-- A link to a directory on the way leads back. -/
theorem Walked.exists_leadsBack (h : t.Walked root front) {target path : Path} {q : Place}
    (hlists : t.Lists (below root front) name (.link target))
    (hpath : t.resolve (below root (front ++ [name])) = .ok place)
    (hfind : (t.trail root front).find? (·.1 = place) = some (q, path)) :
    ∃ before, path = below root before ∧ t.LeadsBack root front name before := by
  obtain ⟨before, hbefore, rfl, hsame, hlast⟩ := exists_of_find?_trail h hfind
  refine ⟨before, rfl, ⟨target, hlists⟩, hbefore, ?_, ?_⟩
  · rw [hsame, hpath]
  · rwa [hpath]

/-- A walk along links makes all visits in the directory where it starts and below. -/
theorem finds_walkBelow (hnamed : t.WellNamed) {front : List Name} {place : Place}
    (hfront : t.Walked root front) (hplace : t.resolve (below root front) = .ok place) :
    t.Finds root (front <+: ·.front)
      (t.walkBelow true (t.trail root front) place (below root front)) := by
  rw [walkBelow_eq]
  refine Finds.flatMap (t.pairwise_names place) (fun v hv name hname => ?_) fun name => ?_
  · rw [mem_names, Option.isSome_iff_exists]
    exact hv.exists_entry_of_prefix hplace hname
  simp only [← below_concat, if_true]
  cases he : t.get? (name :: place) with
  | none =>
    refine Finds.of_not_meets fun v hv hname => ?_
    obtain ⟨e, he'⟩ := hv.exists_entry_of_prefix hplace hname
    cases he.symm.trans he'
  | some e =>
    have hlists : t.Lists (below root front) name e := ⟨place, hplace, he⟩
    cases e with
    | file contents =>
      have hpath := hfront.resolve_concat hnamed hplace he (by simp)
      exact Finds.singleton (.entry hfront hlists hpath (by simp [he]))
    | directory =>
      have hpath := hfront.resolve_concat hnamed hplace he (by simp)
      have hwalked := hfront.concat_of_directory hnamed hplace he
      have hbelow := finds_walkBelow hnamed hwalked hpath
      rw [trail_concat hpath] at hbelow
      exact Finds.cons (.entered hwalked) hbelow
    | link target =>
      cases hpath : t.resolve (below root (front ++ [name])) with
      | error cause => exact Finds.singleton (.broken hfront hlists hpath)
      | ok q =>
        by_cases hdirectory : t.get? q = some .directory
        · simp only [hdirectory]
          cases hfind : (t.trail root front).find? (·.1 = q) with
          | none =>
            have hwalked := hfront.concat_of_link hnamed hlists hpath hdirectory hfind
            have hbelow := finds_walkBelow hnamed hwalked hpath
            rw [trail_concat hpath] at hbelow
            exact Finds.cons (.entered hwalked) hbelow
          | some ancestor =>
            obtain ⟨before, hancestor, hback⟩ := hfront.exists_leadsBack hlists hpath hfind
            simp only [hancestor]
            exact Finds.singleton (.loop hfront hback)
        · have hfound := Finds.singleton (.entry hfront hlists hpath hdirectory)
          dsimp only
          split
          · next hq => exact absurd hq hdirectory
          · exact hfound
termination_by (t.unvisited (t.trail root front), t.depth - place.length)
decreasing_by
  · rw [trail_concat hpath]
    exact Prod.Lex.left _ _ (unvisited_cons_lt _ hdirectory hfind)
  · rw [trail_concat hpath]
    exact measure_lt_of_get? (below root (front ++ [name])) he

/-- Of the visits that are made, the only one from a name on is the one that finds something. -/
theorem filter_visits {visits : List Visit} {found : Found}
    (hsorted : visits.Pairwise fun v w => v.names < w.names)
    (hmem : ∀ v, v ∈ visits ↔ t.Meets root v) (h : t.Meets root ⟨front, name, some found⟩) :
    visits.filter (fun v => front ++ [name] <+: v.names) = [⟨front, name, some found⟩] := by
  have hnodup : visits.Nodup := by
    refine List.Pairwise.imp (fun {v w} hlt heq => ?_) hsorted
    rw [heq] at hlt
    exact List.lt_irrefl _ hlt
  have hsame : ∀ v, v ∈ visits.filter (fun v => front ++ [name] <+: v.names) ↔
      v ∈ [(⟨front, name, some found⟩ : Visit)] := by
    intro v
    rw [List.mem_filter, hmem, decide_eq_true_eq, List.mem_singleton]
    constructor
    · rintro ⟨hv, hname⟩
      exact h.eq_of_prefix hv hname
    · rintro rfl
      exact ⟨h, List.prefix_refl _⟩
  exact List.perm_singleton.1 ((List.perm_ext_iff_of_nodup (hnodup.filter _)
    (List.nodup_singleton _)).2 hsame)

end

end Tree

namespace SourceFile

open Rulebook.Tree Rulebook.Text

/-- Of all visits, one alone is at a name or below it, and this is the item that is collected from
that visit. -/
def GivesOnce (t : Tree) (settings : SourceSettings) (visits : List Visit) (front : List Name)
    (name : Name) (item : Except Error SourceFile) : Prop :=
  ∃ found, visits.filter (fun v => front ++ [name] <+: v.names) = [⟨front, name, some found⟩] ∧
    ofFound t settings found = some item

/-- The visits that a walk along links makes below a directory, and what is collected from them. -/
structure AlongLinks (t : Tree) (settings : SourceSettings) (root : Path) (visits : List Visit) :
    Prop where
  collected : collect t settings root =
    .ok ((visits.filterMap Visit.found).filterMap (ofFound t settings))
  complete : ∀ v, v ∈ visits ↔ t.Meets root v
  /-- The visits are in the order of the bytes of the names. -/
  sorted : visits.Pairwise (fun v w => v.names < w.names)
  /-- Each visit is made once. -/
  nodup : (visits.map fun v => below root v.names).Nodup
  finite : {names | t.Walked root names}.Finite
  /-- A link that leads back gives one error and is not entered. -/
  loop : ∀ front name before, t.Walked root front → t.LeadsBack root front name before →
    GivesOnce t settings visits front name
      (.error (.walk (below root (front ++ [name])) (.loop (below root before))))
  /-- So does a link that leads nowhere. -/
  broken : ∀ front name target cause, t.Walked root front →
    t.Lists (below root front) name (.link target) →
    t.resolve (below root (front ++ [name])) = .error cause →
    GivesOnce t settings visits front name
      (.error (.walk (below root (front ++ [name])) (.system cause)))
  /-- Any other link to a directory is entered, and all that is in there is visited. -/
  entered : ∀ front name target, t.Walked root front →
    t.Lists (below root front) name (.link target) →
    t.isDirectory (below root (front ++ [name])) = true →
    (∀ before, ¬ t.LeadsBack root front name before) →
    ⟨front, name, none⟩ ∈ visits ∧ t.Walked root (front ++ [name]) ∧
      ∀ inner e, t.Lists (below root (front ++ [name])) inner e →
        ∃ found, ⟨front ++ [name], inner, found⟩ ∈ visits
  /-- A file of the right name gives its text, once. -/
  file : ∀ front name, t.Walked root front → Proper name → name.isText = true →
    settings.suffix.bytes <:+ name → t.isFile (below root (front ++ [name])) = true →
    GivesOnce t settings visits front name (read t (below root (front ++ [name])))

end SourceFile

open Rulebook.Tree Rulebook.Text in
/-- Where links are followed, a walk below a directory makes finitely many visits, each once and in
the order of the bytes of the names. A link that leads back, or that leads nowhere, gives one
error and is not entered ; any other link to a directory is entered, and all that is in there is
visited. Errors stop nothing : a file of the right name gives its text, once, wherever the way
there is walked, that is, leads along no link that leads back. -/
theorem collect_along_links {t : Tree} {root : Path} (hnamed : t.WellNamed)
    (hroot : t.isDirectory root = true) (extension : Text) :
    ∃ visits, SourceFile.AlongLinks t ⟨extension, true⟩ root visits := by
  have hwalked := Walked.nil hroot
  obtain ⟨place, hplace, -⟩ := hwalked.exists_place
  have hresolve : t.resolve root = .ok place := hplace
  obtain ⟨visits, hfound, hsorted, hmem⟩ := finds_walkBelow hnamed hwalked hplace
  have hmem : ∀ v, v ∈ visits ↔ t.Meets root v := fun v => by simp [hmem v]
  refine ⟨visits, ?collected, hmem, hsorted, ?nodup, ?finite, ?loop, ?broken, ?entered, ?file⟩
  case collected =>
    rw [trail_nil hresolve] at hfound
    rw [SourceFile.collect, if_pos hroot, walk, hresolve, ← hfound]
    rfl
  case nodup =>
    have hpath := (exists_links_follow_stem hresolve).1
    refine List.pairwise_map.2 (hsorted.imp_of_mem fun hv hw hlt heq => ?_)
    have hproper := fun v hv => ((hmem v).1 hv).proper hnamed
    refine List.lt_irrefl _ ((below_injective hpath ?_ ?_ (hproper _ hv) (hproper _ hw) heq) ▸ hlt)
    · exact List.concat_ne_nil _ _
    · exact List.concat_ne_nil _ _
  case finite =>
    refine ((visits.map Visit.names).finite_toSet.insert []).subset fun names hnames => ?_
    rcases List.eq_nil_or_concat' names with rfl | ⟨front, name, rfl⟩
    · exact Set.mem_insert _ _
    · refine Set.mem_insert_of_mem _ (List.mem_map.2 ⟨⟨front, name, none⟩, ?_, rfl⟩)
      exact (hmem _).2 (.entered hnames)
  case loop =>
    intro front name before hfront hback
    exact ⟨_, filter_visits hsorted hmem (.loop hfront hback), rfl⟩
  case broken =>
    intro front name target cause hfront hlists hcause
    exact ⟨_, filter_visits hsorted hmem (.broken hfront hlists hcause), rfl⟩
  case entered =>
    intro front name target hfront hlists hdirectory hforward
    have hentered :=
      walked_concat_iff.2 ⟨hfront, hlists.proper hnamed, hdirectory, hforward⟩
    refine ⟨(hmem _).2 (.entered hentered), hentered, fun inner e hinner => ?_⟩
    obtain ⟨found, hfound⟩ := hentered.exists_meets hnamed hinner
    exact ⟨found, (hmem _).2 hfound⟩
  case file =>
    intro front name hfront hname htext hsuffix hfile
    obtain ⟨contents, hcontents⟩ := isFile_iff.1 hfile
    obtain ⟨q, hq, hfileAt⟩ := lookUp_eq_ok_iff.1 hcontents
    obtain ⟨directory, hdirectory, -⟩ := hfront.exists_place
    have hjoin := below_concat root front name ▸ hq
    obtain ⟨e, he⟩ := exists_entry_of_resolve_join hdirectory hname hjoin
    refine ⟨_, filter_visits hsorted hmem
      (.entry hfront ⟨directory, hdirectory, he⟩ hq (by simp [hfileAt])), ?_⟩
    exact if_pos ⟨SourceSettings.selects_iff.2 ⟨htext, hsuffix⟩, hfile⟩

open Rulebook.Tree Rulebook.Text in
/-- Two names lead to one directory, and a link in it leads back on both ways. A link to the
directory that the root lies in is entered, and the root below it a second time. -/
theorem collect_along_links_in_circles :
    let t : Tree := ⟨[([.of "g"], .directory), ([.of "a", .of "g"], .directory),
      ([.of "x.bnf", .of "a", .of "g"], .file "<x> ::= 'x'\n".toUTF8),
      ([.of "up", .of "a", .of "g"], .link (.of "..")),
      ([.of "b", .of "g"], .link (.of "a")),
      ([.of "gone", .of "g"], .link (.of "nowhere")),
      ([.of "top", .of "g"], .link (.of ".."))], []⟩
    t.WellNamed ∧ t.isDirectory (.of "g") = true ∧
      (∃ visits, SourceFile.AlongLinks t ⟨"bnf".toList, true⟩ (.of "g") visits ∧
        SourceFile.GivesOnce t ⟨"bnf".toList, true⟩ visits [.of "a"] (.of "up")
          (.error (.walk (.of "g/a/up") (.loop (.of "g")))) ∧
        SourceFile.GivesOnce t ⟨"bnf".toList, true⟩ visits [] (.of "gone")
          (.error (.walk (.of "g/gone") (.system .notFound))) ∧
        SourceFile.GivesOnce t ⟨"bnf".toList, true⟩ visits [.of "b"] (.of "x.bnf")
          (.ok ⟨.of "g/b/x.bnf", "<x> ::= 'x'\n".toList⟩)) ∧
      SourceFile.collect t ⟨"bnf".toList, true⟩ (.of "g") =
        .ok [.error (.walk (.of "g/a/up") (.loop (.of "g"))),
          .ok ⟨.of "g/a/x.bnf", "<x> ::= 'x'\n".toList⟩,
          .error (.walk (.of "g/b/up") (.loop (.of "g"))),
          .ok ⟨.of "g/b/x.bnf", "<x> ::= 'x'\n".toList⟩,
          .error (.walk (.of "g/gone") (.system .notFound)),
          .error (.walk (.of "g/top/g/a/up") (.loop (.of "g/top/g"))),
          .ok ⟨.of "g/top/g/a/x.bnf", "<x> ::= 'x'\n".toList⟩,
          .error (.walk (.of "g/top/g/b/up") (.loop (.of "g/top/g"))),
          .ok ⟨.of "g/top/g/b/x.bnf", "<x> ::= 'x'\n".toList⟩,
          .error (.walk (.of "g/top/g/gone") (.system .notFound)),
          .error (.walk (.of "g/top/g/top") (.loop (.of "g/top")))] := by
  intro t
  have hnamed : t.WellNamed := .of_entries (by decide +kernel) (by decide)
  have hroot : t.isDirectory (.of "g") = true := by
    simp only [t]
    cbv
  have hg : t.resolve (.of "g") = .ok [.of "g"] := by
    simp only [t]
    cbv
  have ha : t.resolve (.of "g/a") = .ok [.of "a", .of "g"] := by
    simp only [t]
    cbv
  have hb : t.resolve (.of "g/b") = .ok [.of "a", .of "g"] := by
    simp only [t]
    cbv
  have hup : t.resolve (.of "g/a/up") = .ok [.of "g"] := by
    simp only [t]
    cbv
  refine ⟨hnamed, hroot, ?_, ?_⟩
  · obtain ⟨visits, hvisits⟩ := collect_along_links hnamed hroot "bnf".toList
    have hwalked := Walked.nil hroot
    have hwalkedA : t.Walked (.of "g") [.of "a"] := hwalked.concat_of_directory hnamed hg rfl
    refine ⟨visits, hvisits, ?_, ?_, ?_⟩
    · refine hvisits.loop [.of "a"] (.of "up") [] hwalkedA ⟨⟨_, _, ha, rfl⟩, ?_, ?_, ?_⟩
      · exact List.nil_prefix
      · exact hg.trans hup.symm
      · intro other hother hsame
        have hother : other <+: [] ++ [.of "a"] := hother
        rcases List.prefix_concat_iff.1 hother with rfl | hother
        · cases ha.symm.trans (hsame.trans hup)
        · exact hother
    · refine hvisits.broken [] (.of "gone") _ _ hwalked ⟨_, hg, rfl⟩ ?_
      simp only [t]
      cbv
    · have hdirectory : t.isDirectory (.of "g/b") = true := by
        simp only [t]
        cbv
      have hwalkedB : t.Walked (.of "g") [.of "b"] := by
        refine (hvisits.entered [] (.of "b") _ hwalked ⟨_, hg, rfl⟩ hdirectory ?_).2.1
        intro before hback
        obtain rfl := List.prefix_nil.1 hback.on_way
        cases hg.symm.trans (hback.same.trans hb)
      have hfile : t.isFile (.of "g/b/x.bnf") = true := by
        simp only [t]
        cbv
      have hread : SourceFile.read t (.of "g/b/x.bnf") =
          .ok ⟨.of "g/b/x.bnf", "<x> ::= 'x'\n".toList⟩ := by
        simp only [t]
        cbv
      rw [← hread]
      exact hvisits.file [.of "b"] (.of "x.bnf") hwalkedB (by decide) (by decide) (by decide) hfile
  · simp only [t]
    cbv

end Rulebook
