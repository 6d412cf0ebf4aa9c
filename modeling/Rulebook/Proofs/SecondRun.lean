import Mathlib
import Rulebook.Proofs.Stages
import Rulebook.Proofs.Unselected
import Rulebook.Proofs.Winning

/-!
# A run that is made again

The document of a run may lie below the root of the next. If its name does not end with the
selected suffix, the tree with it is like the one before (`Tree.alike_put`), so that the same
grammar is loaded. If no candidate for a settings file leads to it, the same settings are built
(`Settings.build_congr`). So the same document is written to the same place, and nothing changes any
more (`CommandLine.perform_again`).
-/

namespace Rulebook

namespace Settings

/-! ## Where settings are read from -/

/-- The paths of the files that a path may name. -/
def candidates (path : Path) : List Path := path :: (withExtension? path).toList

section

variable {t u : Tree} {path : Path}

/-- A file is located among the candidates of its path. -/
theorem locate?_spec {found : Path} (h : locate? t path = some found) :
    found ∈ candidates path ∧ t.isFile found = true := by
  unfold locate? at h
  split at h
  · next hfile =>
    obtain rfl := Option.some.inj h
    exact ⟨List.mem_cons_self, hfile⟩
  · obtain ⟨hextended, hfile⟩ := Option.filter_eq_some_iff.1 h
    exact ⟨List.mem_cons_of_mem _ (Option.mem_toList.2 hextended), hfile⟩

/-- Trees in which the candidates of a path lead to the same files give the same members. -/
theorem readFile_congr (hhome : u.home = t.home)
    (h : ∀ candidate ∈ candidates path, ∀ contents,
      u.lookUp candidate = .ok (.file contents) ↔ t.lookUp candidate = .ok (.file contents)) :
    readFile u path = readFile t path := by
  have hfile : ∀ candidate ∈ candidates path, u.isFile candidate = t.isFile candidate := by
    intro candidate hmem
    rw [Bool.eq_iff_iff, Tree.isFile_iff, Tree.isFile_iff]
    exact exists_congr (h candidate hmem)
  have hlocate : locate? u path = locate? t path := by
    have hextended :
        (withExtension? path).filter u.isFile = (withExtension? path).filter t.isFile := by
      cases hpath : withExtension? path with
      | none => rfl
      | some extended =>
        simp only [Option.filter_some, hfile extended (by simp [candidates, hpath])]
    rw [locate?, locate?, hfile path List.mem_cons_self, hextended]
  have hname : ∀ found, fileName u found = fileName t found := fun found => by
    simp only [fileName, hhome]
  rw [readFile, readFile, hlocate]
  cases hfound : locate? t path with
  | none => rfl
  | some found =>
    obtain ⟨hmem, hfileAt⟩ := locate?_spec hfound
    obtain ⟨contents, hcontents⟩ := Tree.isFile_iff.1 hfileAt
    have hread : u.read found = t.read found := by
      rw [Tree.read_of_lookUp hcontents, Tree.read_of_lookUp ((h found hmem contents).2 hcontents)]
    simp only [hread, hname]

theorem Layer.read_congr {l : Layer} (h : readFile u l.path = readFile t l.path) :
    l.read u = l.read t := by
  cases l with
  | required path order | optional path order =>
    have h : readFile u path = readFile t path := h
    rw [read, read, h]

/-- The settings are the same where the files of all layers are. -/
theorem build_congr {layers : List Layer}
    (h : ∀ l ∈ layers, readFile u l.path = readFile t l.path) (o : Orders)
    (overrides : List (Text × Value)) :
    build o u layers overrides = build o t layers overrides := by
  have hfold : ∀ members,
      layers.foldlM (fun members l => do return layer (← l.read u) members) members =
        layers.foldlM (fun members l => do return layer (← l.read t) members) members := by
    intro members
    induction layers generalizing members with
    | nil => rfl
    | cons l rest ih =>
      obtain ⟨hl, hrest⟩ := List.forall_mem_cons.1 h
      rw [List.foldlM_cons, List.foldlM_cons, Layer.read_congr hl]
      exact bind_congr fun members => ih hrest members
  simp only [build, merge, hfold]

end

end Settings

namespace Tree

open Text

/-! ## The place of a file -/

/-- Where there are no links, steps that lead to what is no directory end with the name of its
place. -/
theorem exists_name_of_follow {t : Tree} {creating : Bool} {links : Nat} {place : Place}
    {steps : List Step} {spot : Spot} (hlinkless : ∀ p target, t.get? p ≠ some (.link target))
    (hplace : ∀ p, p <:+ place → t.get? p = some .directory)
    (hspot : t.get? spot.place ≠ some .directory)
    (h : t.follow creating links place steps = .ok spot) :
    ∃ name, steps.getLast? = some (.down name) ∧ spot.place.head? = some name := by
  fun_induction t.follow creating links place steps with
  | case1 links place =>
    obtain rfl : .taken place = spot := by simpa using h
    exact absurd (hplace place List.suffix_rfl) hspot
  | case3 _ _ _ _ ih | case4 _ _ _ _ ih =>
    obtain ⟨name, hlast, hhead⟩ := ih hplace h
    exact ⟨name, by rw [List.getLast?_cons, hlast]; rfl, hhead⟩
  | case5 _ place _ _ ih =>
    obtain ⟨name, hlast, hhead⟩ := ih (fun p hp => hplace p (hp.trans (List.tail_suffix place))) h
    exact ⟨name, by rw [List.getLast?_cons, hlast]; rfl, hhead⟩
  | case7 links place rest _ name _ _ =>
    obtain ⟨-, rfl, rfl⟩ := absent_eq_ok_iff.1 h
    exact ⟨name, rfl, rfl⟩
  | case9 _ _ _ _ _ _ he => exact absurd he (hlinkless _ _)
  | case10 links place rest _ name _ e _ he ih =>
    by_cases hdirectory : e = .directory
    · subst hdirectory
      have hinner : ∀ p, p <:+ name :: place → t.get? p = some .directory := by
        intro p hp
        rcases List.suffix_cons_iff.1 hp with rfl | hp
        · exact he
        · exact hplace p hp
      obtain ⟨last, hlast, hhead⟩ := ih hinner h
      exact ⟨last, by rw [List.getLast?_cons, hlast]; rfl, hhead⟩
    · have hne : t.get? (name :: place) ≠ some .directory := by
        rw [he]
        exact fun heq => hdirectory (Option.some.inj heq)
      cases rest with
      | nil =>
        obtain rfl : .taken (name :: place) = spot := by simpa [follow_nil] using h
        exact ⟨name, rfl, rfl⟩
      | cons step rest => simp [follow_of_not_directory step hne] at h
  | _ => simp at h

/-- Where there are no links, the place that is written to has the last piece of the path as its
name. -/
theorem Housed.head?_of_find {t : Tree} {creating : Bool} {path : Path} {spot : Spot}
    (h : t.Housed) (hlinkless : ∀ p target, t.get? p ≠ some (.link target))
    (hspot : t.get? spot.place ≠ some .directory) (hfind : t.find creating path = .ok spot) :
    spot.place.head? = (splitAt Path.slash path).getLast? := by
  obtain ⟨name, hlast, hhead⟩ := exists_name_of_follow hlinkless
    (fun p hp => h p (hp.trans (start_suffix t.home path))) hspot (find_eq_ok_iff.1 hfind).2
  rw [Step.ofPath, List.getLast?_map, Option.map_eq_some_iff] at hlast
  obtain ⟨piece, hpiece, hname⟩ := hlast
  rw [hhead, hpiece, (Step.ofPiece_eq_down_iff.1 hname).1]

end Tree

namespace CommandLine

open Settings (Setting)

/-! ## Settings from plain layers -/

/-- The overrides of a run are of settings, and are texts. -/
theorem Run.targeted_overrides (r : Run) : Settings.Targeted r.overrides := by
  have htarget : ∀ o ∈ r.overrides,
      (o.1 = Setting.extension.key ∨ o.1 = Setting.path.key) ∧ o.2.isTable = false := by
    intro o ho
    simp only [overrides, List.mem_append, List.mem_map] at ho
    obtain ⟨v, -, rfl⟩ | ⟨v, -, rfl⟩ := ho
    · exact ⟨Or.inl rfl, rfl⟩
    · exact ⟨Or.inr rfl, rfl⟩
  refine ⟨fun o ho => ?_, ?_, fun o ho => (htarget o ho).2⟩
  · obtain ⟨heq | heq, -⟩ := htarget o ho
    · exact ⟨.extension, by rw [heq]; decide⟩
    · exact ⟨.path, by rw [heq]; decide⟩
  · unfold overrides
    cases r.extension <;> cases r.output <;>
      simp only [Option.toList, List.map_nil, List.map_cons, List.append_nil, List.nil_append,
        List.cons_append] <;> decide

/-- If its settings files are plain, a run has the same settings in whatever orders they are gone
through. -/
theorem Run.settings_of_isPlain {r : Run} {c c' : Circumstances} {t : Tree} {s : Settings}
    (hlayers : ∀ l ∈ r.layers c, l.IsPlain t) (h : r.settings c t = .ok s) :
    r.settings c' t = .ok s := by
  have hgiven : (r.layers c').map (Settings.Layer.given t) =
      (r.layers c).map (Settings.Layer.given t) := by
    rw [layers, layers, List.map_cons, List.map_cons, List.map_map, List.map_map]
    rfl
  obtain ⟨hlayers', -⟩ := Settings.given?_congr hgiven hlayers
  obtain ⟨hroot, hbuild⟩ := settings_eq_ok_iff.1 h
  rw [Settings.build_eq_converted hlayers r.targeted_overrides,
    Settings.converted_eq_ok_iff] at hbuild
  rw [settings_eq_ok_iff, Settings.build_eq_converted hlayers' r.targeted_overrides,
    Settings.converted_eq_ok_iff]
  simp only [Settings.winning_congr hgiven hlayers]
  exact ⟨hroot, hbuild⟩

/-! ## The second run -/

/-- The layers of a run have the local file first, then the one that is asked for. -/
theorem Run.layers_path (r : Run) (c : Circumstances) : (r.layers c).map Settings.Layer.path =
    localSettings :: r.config.toList.map Text.bytes := by
  rw [layers, List.map_cons, List.map_map]
  rfl

/-- A run that succeeds does so once more, with the same settings and the same device, and leaves
the same tree. -/
theorem Run.Succeeds.again {r : Run} {c c' : Circumstances} {t after : Tree} {s : Settings}
    {g : Grammar} {text : Text} (h : r.Succeeds c t s g text after)
    (hagain : r.settings c' t = .ok s) (hdevice : c'.device = c.device) (hnamed : t.WellNamed)
    (hhoused : t.Housed) (hlinkless : ∀ p target, t.get? p ≠ some (.link target))
    (hname : ∀ name ∈ (Text.splitAt Path.slash s.output.path.bytes).getLast?,
      ¬ s.source.suffix.bytes <:+ name)
    (hcandidates : ∀ path ∈ localSettings :: r.config.toList.map Text.bytes,
      ∀ candidate ∈ Settings.candidates path,
        after.resolve candidate ≠ after.resolve s.output.path.bytes) :
    r.Succeeds c' after s g text after := by
  obtain ⟨place, opened, hopen, -, rfl⟩ := Tree.write_eq_ok_iff.1 h.written
  obtain ⟨-, -, ⟨spot, hfind, rfl⟩, hspot, -⟩ := Tree.openFile_eq_ok_iff.1 hopen
  have hplain : t.Plain spot.place := by
    intro e he
    cases e with
    | file contents => exact ⟨contents, rfl⟩
    | link target => exact absurd he (hlinkless _ _)
    | directory => exact absurd he hspot
  have hasked : spot.place ∉ t.askedBy r.rootPath := by
    obtain ⟨p, hp, hdirectory⟩ := Tree.lookUp_eq_ok_iff.1 (Tree.isDirectory_iff.1 h.root)
    refine Tree.not_mem_askedBy hp ?_ hspot (hlinkless _)
    rintro rfl
    exact hspot hdirectory
  have hwritten := (Tree.filled_of_openFile hopen (Text.encode text)).resolve
  have halike := Tree.alike_put hplain
    (hhoused.head?_of_find hlinkless hspot hfind ▸ hname) hasked
    (fun name directory target he => absurd he (hlinkless _ _)) (Text.encode text)
  refine ⟨⟨?_, ?_, ?_⟩, h.rendered, hdevice ▸ Tree.write_write h.written⟩
  · exact halike.isDirectory_eq.trans h.root
  · rw [← (settings_eq_ok_iff.1 hagain).2]
    have hhome : (t.put spot.place (.file (Text.encode text))).home = t.home := rfl
    refine Settings.build_congr (fun l hl => Settings.readFile_congr hhome ?_) _ _
    intro candidate hmem contents
    have hpath : l.path ∈ localSettings :: r.config.toList.map Text.bytes :=
      r.layers_path c' ▸ List.mem_map_of_mem hl
    exact Tree.lookUp_put_iff hspot (hlinkless _) (hwritten ▸ hcandidates _ hpath candidate hmem)
  · rw [← h.grammar]
    exact (congrArg (· >>= _) (SourceFile.collect_eq_of_alike halike hnamed)).symm

/-- Where there are no links, a run that ends with 0 can be made again, if the name of the file that
it writes is not selected and no candidate for a settings file leads to that file : it ends and
prints as before, and leaves all as it is. The second run may come by the members of tables in other
orders, but the settings have to be the same then, and the device has to do the same. -/
theorem perform_again {t : Tree} {arguments : List Text} {r : Run} {s : Settings}
    {c c' : Circumstances} (hnamed : t.WellNamed) (hhoused : t.Housed)
    (hlinkless : ∀ p target, t.get? p ≠ some (.link target))
    (hrun : Request.ofArguments arguments = .run r) (hcode : (perform c t arguments).code = 0)
    (hsettings : r.settings c t = .ok s) (hagain : r.settings c' t = .ok s)
    (hdevice : c'.device = c.device)
    (hname : ∀ name ∈ (Text.splitAt Path.slash s.output.path.bytes).getLast?,
      ¬ s.source.suffix.bytes <:+ name)
    (hcandidates : ∀ path ∈ localSettings :: r.config.toList.map Text.bytes,
      ∀ candidate ∈ Settings.candidates path,
        (perform c t arguments).tree.resolve candidate ≠
          (perform c t arguments).tree.resolve s.output.path.bytes) :
    perform c' (perform c t arguments).tree arguments = perform c t arguments := by
  obtain ⟨hdone, -⟩ := code_perform_eq_iff hrun c t
  obtain ⟨s', g, text, after, h⟩ := hdone.1 hcode
  obtain rfl : s' = s := Except.ok.inj ((Run.settings_eq_ok_iff.2 ⟨h.root, h.settings⟩).symm.trans
    hsettings)
  rw [perform_of_succeeds hrun h] at hcandidates ⊢
  exact perform_of_succeeds hrun
    (h.again hagain hdevice hnamed hhoused hlinkless hname hcandidates)

/-- The document is written into the root itself, which is the working directory, and the second run
goes past it, though it comes by longer names first. -/
theorem perform_again_in_root :
    let settings := "[output]\npath = 'o.json'\nindent = 2\n".toList
    let t : Tree := ⟨[([.of "w"], .directory),
      ([.of "bnf.toml", .of "w"], .file (Text.encode settings)),
      ([.of "a.bnf", .of "w"], .file "<a> ::= 'x'\n".toUTF8)], [.of "w"]⟩
    let order : Settings.Order := ⟨fun _ name => 20 - name.length⟩
    let c' : Circumstances :=
      { localOrder := order, orders := { merged := order, reading := order } }
    let arguments := [".".toList]
    let g : Grammar := ⟨[⟨"a".toList, "'x'".toList⟩]⟩
    (perform {} t arguments).code = 0 ∧
      (perform {} t arguments).output = "Successfully converted BNF files to o.json\n" ∧
      (perform {} t arguments).tree.get? [.of "o.json", .of "w"] =
        some (.file (Text.encode (g.layout 2))) ∧
      perform c' (perform {} t arguments).tree arguments = perform {} t arguments := by
  intro settings t order c' arguments g
  let r : Run := ⟨".".toList, none, none, none, false⟩
  let s : Settings := ⟨{}, {}, ⟨"o.json".toList, 2⟩⟩
  let place : Place := [.of "o.json", .of "w"]
  let after : Tree := t.put place (.file (Text.encode (g.layout 2)))
  have hrun : Request.ofArguments arguments = .run r := by decide +kernel
  -- What is asked of the tree does not depend on the bytes of the settings file.
  have htree : ∀ a b : ByteArray,
      let t : Tree := ⟨[([.of "w"], .directory), ([.of "bnf.toml", .of "w"], .file a),
        ([.of "a.bnf", .of "w"], .file "<a> ::= 'x'\n".toUTF8)], [.of "w"]⟩
      let after : Tree := t.put place (.file b)
      t.lookUp localSettings = .ok (.file a) ∧ t.isDirectory r.rootPath = true ∧
        Grammar.load t {} {} r.rootPath = .ok g ∧ t.find true (.of "o.json") = .ok (.free place) ∧
        after.resolve (.of "bnf.toml") = .ok [.of "bnf.toml", .of "w"] ∧
        after.resolve (.of "bnf.toml.toml") = .error .notFound := by
    intro a b
    simp only [r, g, place]
    refine ⟨?_, ?_, ?_, ?_, ?_, ?_⟩ <;> cbv
  obtain ⟨hlook, hroot, hgrammar, hfind, hplain, hextended⟩ :=
    htree (Text.encode settings) (Text.encode (g.layout 2))
  let fromLocal (x : Settings.Datum) : Settings.Value := .datum x (some localSettings)
  let given : List (Text × Settings.Value) := [("output".toList,
    .table [("path".toList, fromLocal (.string "o.json".toList)),
      ("indent".toList, fromLocal (.integer 2))] (some localSettings))]
  have hread : (Settings.Layer.optional localSettings .asWritten).read t = .ok given := by
    rw [Settings.Layer.read, Settings.readFile_of_lookUp hlook]
    decide +kernel
  have hgiven : Settings.Plain given := by decide +kernel
  have hsettings : r.settings {} t = .ok s :=
    Run.settings_eq_ok_iff.2 ⟨hroot,
      (Settings.build_of_read hread hgiven r.targeted_overrides {}).trans (by decide +kernel)⟩
  have hlayers : ∀ l ∈ r.layers {}, l.IsPlain t := by
    intro l hl
    rw [List.mem_singleton.1 hl]
    exact ⟨given, hread, hgiven⟩
  have hagain : r.settings c' t = .ok s := Run.settings_of_isPlain hlayers hsettings
  have hspot : t.get? place ≠ some .directory := by
    rw [Tree.get?_of_follow_free (Tree.find_eq_ok_iff.1 hfind).2]
    simp
  have hwritten :
      t.write .sound s.output.path.bytes (Text.encode (g.layout 2)) = (.ok (), after) :=
    Tree.write_eq_ok_iff.2 ⟨place, _, Tree.openFile_eq_ok_iff.2 ⟨by decide +kernel,
      by decide +kernel, ⟨_, hfind, rfl⟩, hspot, rfl, rfl⟩, rfl, rfl⟩
  have hsucceeds : r.Succeeds {} t s g (g.layout 2) after :=
    ⟨⟨hroot, (Run.settings_eq_ok_iff.1 hsettings).2, hgrammar⟩, by decide +kernel, hwritten⟩
  have hperform := perform_of_succeeds hrun hsucceeds
  have hcode : (perform {} t arguments).code = 0 := by rw [hperform]
  have hnamed : t.WellNamed := .of_entries (by decide +kernel) (by decide)
  have hhoused : t.Housed := by
    intro p hp
    rcases List.suffix_cons_iff.1 hp with rfl | hp
    · rfl
    · rw [List.suffix_nil.1 hp]
      rfl
  have hlinkless : ∀ p target, t.get? p ≠ some (.link target) := by
    intro p target hlink
    by_cases hp : p = []
    · simp [hp, Tree.get?] at hlink
    · have hmem := Tree.mem_of_get? hp hlink
      simp [t] at hmem
  have hresolve : after.resolve s.output.path.bytes = .ok place :=
    Tree.resolve_eq_ok_iff.2
      (Tree.find_put (Text.encode (g.layout 2)) (Bool.false_le true) hspot hfind)
  have hcandidates : ∀ path ∈ localSettings :: r.config.toList.map Text.bytes,
      ∀ candidate ∈ Settings.candidates path,
        after.resolve candidate ≠ after.resolve s.output.path.bytes := by
    intro path hpath candidate hmem
    obtain rfl : path = localSettings := List.mem_singleton.1 hpath
    have hboth : Settings.candidates localSettings = [.of "bnf.toml", .of "bnf.toml.toml"] := by
      decide +kernel
    rw [hboth, List.mem_pair] at hmem
    rcases hmem with rfl | rfl
    · rw [hresolve, hplain]
      decide +kernel
    · rw [hresolve, hextended]
      simp
  refine ⟨hcode, by rw [hperform]; decide +kernel, by rw [hperform]; rfl, ?_⟩
  exact perform_again hnamed hhoused hlinkless hrun hcode hsettings hagain rfl (by decide +kernel)
    (by rw [hperform]; exact hcandidates)

end CommandLine

end Rulebook
