import Mathlib
import Rulebook.CommandLine.Outcome
import Rulebook.Proofs.Winning
import Rulebook.Proofs.Writing

/-!
# The stages of a run

A run checks its root, puts its settings together and loads the grammar (`CommandLine.Run.Loads`),
and then it renders the document and writes it. It comes to an end if each stage succeeds
(`CommandLine.Run.Succeeds`), and otherwise it fails with what the first stage that fails says
(`CommandLine.Run.Fails`); what later stages would say is not asked. It ends in the middle of its
work if there can be no document of the grammar (`CommandLine.Run.Aborts`). There is no other way,
and no run is of two kinds (`CommandLine.code_perform_eq_iff`). What each of them leaves behind is
`CommandLine.Run.EndsWith`, and `CommandLine.perform_run` says it of all runs.

A run changes at most the one file that its settings name, and that only if it writes. If the write
breaks off the file has a part of the document, and for every other failure nothing changes
(`CommandLine.Run.Fails.eq_or_exists_filled`).
-/

namespace Rulebook.CommandLine

/-- Nothing fails before the document : the settings and the grammar. -/
structure Run.Loads (r : Run) (c : Circumstances) (t : Tree) (s : Settings) (g : Grammar) :
    Prop where
  root : t.isDirectory r.rootPath = true
  settings : Settings.build c.orders t (r.layers c) r.overrides = .ok s
  grammar : Grammar.load t s.source s.parsing r.rootPath = .ok g

/-- No stage of the run fails : the document, and the tree with it. -/
structure Run.Succeeds (r : Run) (c : Circumstances) (t : Tree) (s : Settings) (g : Grammar)
    (text : Text) (after : Tree) : Prop extends r.Loads c t s g where
  rendered : g.document s.output.indent = some text
  written : t.write c.device s.output.path.bytes (Text.encode text) = (.ok (), after)

/-- There can be no document of the grammar. -/
structure Run.Aborts (r : Run) (c : Circumstances) (t : Tree) (s : Settings) (g : Grammar) : Prop
    extends r.Loads c t s g where
  unfit : ¬ g.Fits s.output.indent

/-- How the run fails, at the first stage that does, and the tree afterwards. -/
inductive Run.Fails (r : Run) (c : Circumstances) (t : Tree) : Failure → Tree → Prop where
  | root (hroot : t.isDirectory r.rootPath = false) :
      Fails r c t (.merging (.missingRoot r.rootPath)) t
  | settings {e : Settings.Error} (hroot : t.isDirectory r.rootPath = true)
      (hsettings : Settings.build c.orders t (r.layers c) r.overrides = .error e) :
      Fails r c t (.settings e) t
  | grammar {s : Settings} {e : Error} (hroot : t.isDirectory r.rootPath = true)
      (hsettings : Settings.build c.orders t (r.layers c) r.overrides = .ok s)
      (hgrammar : Grammar.load t s.source s.parsing r.rootPath = .error e) :
      Fails r c t (.merging e) t
  | written {s : Settings} {g : Grammar} {text : Text} {cause : Cause} {after : Tree}
      (hloads : r.Loads c t s g) (hrendered : g.document s.output.indent = some text)
      (hwritten : t.write c.device s.output.path.bytes (Text.encode text) =
        (.error cause, after)) :
      Fails r c t (.merging (.writeOutput s.output.path.bytes cause)) after

namespace Run

section

variable {r : Run} {c : Circumstances} {t after : Tree} {s : Settings} {g : Grammar} {text : Text}
  {failure : Failure}

/-- Every run succeeds, fails, or ends in the middle of its work. -/
theorem succeeds_or_fails_or_aborts (r : Run) (c : Circumstances) (t : Tree) :
    (∃ s g text after, r.Succeeds c t s g text after) ∨
      (∃ failure after, r.Fails c t failure after) ∨ ∃ s g, r.Aborts c t s g := by
  cases hroot : t.isDirectory r.rootPath with
  | false => exact Or.inr (Or.inl ⟨_, _, .root hroot⟩)
  | true =>
    cases hsettings : Settings.build c.orders t (r.layers c) r.overrides with
    | error e => exact Or.inr (Or.inl ⟨_, _, .settings hroot hsettings⟩)
    | ok s =>
      cases hgrammar : Grammar.load t s.source s.parsing r.rootPath with
      | error e => exact Or.inr (Or.inl ⟨_, _, .grammar hroot hsettings hgrammar⟩)
      | ok g =>
        have hloads : r.Loads c t s g := ⟨hroot, hsettings, hgrammar⟩
        cases hrendered : g.document s.output.indent with
        | none => exact Or.inr (Or.inr ⟨s, g, hloads, Grammar.document_eq_none_iff.1 hrendered⟩)
        | some text =>
          obtain ⟨result, after, hwritten⟩ : ∃ result after,
              t.write c.device s.output.path.bytes (Text.encode text) = (result, after) :=
            ⟨_, _, rfl⟩
          cases result with
          | error cause => exact Or.inr (Or.inl ⟨_, _, .written hloads hrendered hwritten⟩)
          | ok _ => exact Or.inl ⟨s, g, text, after, hloads, hrendered, hwritten⟩

theorem settings_eq_ok_iff : r.settings c t = .ok s ↔ t.isDirectory r.rootPath = true ∧
    Settings.build c.orders t (r.layers c) r.overrides = .ok s := by
  unfold Run.settings
  cases hroot : t.isDirectory r.rootPath with
  | false => simp
  | true => cases hbuild : Settings.build c.orders t (r.layers c) r.overrides <;> simp

/-! ## How a run ends -/

/-- A run that succeeds ends as done. -/
theorem Succeeds.execute_eq (h : r.Succeeds c t s g text after) :
    r.execute c t = (.done s.output.path, after) := by
  have hsettings := settings_eq_ok_iff.2 ⟨h.root, h.settings⟩
  have hsave : g.save t c.device s.output = (.saved, after) := by
    simp only [Grammar.save, h.rendered, h.written]
  simp only [execute, hsettings, h.grammar, hsave]

/-- A run without a document ends as aborted, and the tree is as before. -/
theorem Aborts.execute_eq (h : r.Aborts c t s g) : r.execute c t = (.aborted, t) := by
  have hsettings := settings_eq_ok_iff.2 ⟨h.root, h.settings⟩
  have hsave : g.save t c.device s.output = (.aborted, t) := by
    simp only [Grammar.save, Grammar.document_eq_none_iff.2 h.unfit]
  simp only [execute, hsettings, h.grammar, hsave]

/-- A run in which a stage fails ends with the failure of that stage. -/
theorem Fails.execute_eq (h : r.Fails c t failure after) :
    r.execute c t = (.failed failure, after) := by
  cases h with
  | root hroot => simp [execute, Run.settings, hroot]
  | settings hroot hbuild => simp only [execute, Run.settings, if_pos hroot, hbuild]
  | @grammar s e hroot hbuild hgrammar =>
    have hsettings := settings_eq_ok_iff.2 ⟨hroot, hbuild⟩
    simp only [execute, hsettings, hgrammar]
  | @written s g text cause after hloads hrendered hwritten =>
    have hsettings := settings_eq_ok_iff.2 ⟨hloads.root, hloads.settings⟩
    have hsave : g.save t c.device s.output =
        (.failed (.writeOutput s.output.path.bytes cause), after) := by
      simp only [Grammar.save, hrendered, hwritten]
    simp only [execute, hsettings, hloads.grammar, hsave]

/-! ## What a run leaves behind -/

/-- A run that succeeds fills the file that its settings name. -/
theorem Succeeds.exists_filled (h : r.Succeeds c t s g text after) :
    ∃ place, t.Filled s.output.path.bytes place (Text.encode text) after :=
  Tree.exists_filled_of_write h.written

/-- A run that fails leaves all as it is, or it has written a part of the document. -/
theorem Fails.eq_or_exists_filled (h : r.Fails c t failure after) :
    after = t ∨ ∃ s g text place count cause, r.Loads c t s g ∧
      g.document s.output.indent = some text ∧
      c.device.breaksOff place (Text.encode text) = some (count, cause) ∧
      failure = .merging (.writeOutput s.output.path.bytes cause) ∧
      t.Filled s.output.path.bytes place ((Text.encode text).extract 0 count) after := by
  cases h with
  | root _ | settings _ _ | grammar _ _ _ => exact Or.inl rfl
  | @written s g text cause after hloads hrendered hwritten =>
    rcases Tree.eq_or_exists_filled_of_write hwritten with rfl | ⟨place, count, hbreak, hfilled⟩
    · exact Or.inl rfl
    · exact Or.inr ⟨s, g, text, place, count, cause, hloads, hrendered, hbreak, rfl, hfilled⟩

end

end Run

section

variable {arguments : List Text} {r : Run} {c : Circumstances} {t after : Tree} {s : Settings}
  {g : Grammar} {text : Text} {failure : Failure}
  (hrun : Request.ofArguments arguments = .run r)
include hrun

theorem perform_of_execute {ending : Ending} (h : r.execute c t = (ending, after)) :
    perform c t arguments = ending.outcome after := by
  rw [perform, hrun, Request.perform, h]

/-- A run that succeeds exits with 0 and prints where the document is. -/
theorem perform_of_succeeds (h : r.Succeeds c t s g text after) :
    perform c t arguments =
      ⟨0, "Successfully converted BNF files to " ++ .ofList s.output.path ++ "\n", none,
        after⟩ :=
  perform_of_execute hrun h.execute_eq

/-- A run in which a stage fails exits with 1 and reports the failure. -/
theorem perform_of_fails (h : r.Fails c t failure after) :
    perform c t arguments = ⟨1, "", some ("Error: " ++ failure.message), after⟩ :=
  perform_of_execute hrun h.execute_eq

/-- A run without a document exits with 101 and says nothing. -/
theorem perform_of_aborts (h : r.Aborts c t s g) : perform c t arguments = ⟨101, "", none, t⟩ :=
  perform_of_execute hrun h.execute_eq

/-- The exit code tells the three kinds of runs apart. -/
theorem code_perform_eq_iff (c : Circumstances) (t : Tree) :
    ((perform c t arguments).code = 0 ↔ ∃ s g text after, r.Succeeds c t s g text after) ∧
    ((perform c t arguments).code = 1 ↔ ∃ failure after, r.Fails c t failure after) ∧
    ((perform c t arguments).code = 101 ↔ ∃ s g, r.Aborts c t s g) := by
  have hsucceeds : (∃ s g text after, r.Succeeds c t s g text after) →
      (perform c t arguments).code = 0 := by
    rintro ⟨s, g, text, after, h⟩
    rw [perform_of_succeeds hrun h]
  have hfails : (∃ failure after, r.Fails c t failure after) →
      (perform c t arguments).code = 1 := by
    rintro ⟨failure, after, h⟩
    rw [perform_of_fails hrun h]
  have haborts : (∃ s g, r.Aborts c t s g) → (perform c t arguments).code = 101 := by
    rintro ⟨s, g, h⟩
    rw [perform_of_aborts hrun h]
  have hall := r.succeeds_or_fails_or_aborts c t
  refine ⟨⟨fun hcode => ?_, hsucceeds⟩, ⟨fun hcode => ?_, hfails⟩, ⟨fun hcode => ?_, haborts⟩⟩
  · rcases hall with h | h | h
    · exact h
    · simp [hfails h] at hcode
    · simp [haborts h] at hcode
  · rcases hall with h | h | h
    · simp [hsucceeds h] at hcode
    · exact h
    · simp [haborts h] at hcode
  · rcases hall with h | h | h
    · simp [hsucceeds h] at hcode
    · simp [hfails h] at hcode
    · exact h

end

/-- How a run ends, and what it leaves behind. -/
structure Run.EndsWith (r : Run) (c : Circumstances) (t : Tree) (o : Outcome) : Prop where
  code_eq_zero_iff : o.code = 0 ↔ ∃ s g text after, r.Succeeds c t s g text after
  /-- The document stands in the file that the settings name, and all else is as it was. -/
  done : ∀ s g text after, r.Succeeds c t s g text after →
    o.report = none ∧ o.tree.read s.output.path.bytes = .ok text ∧
      ∃ place, t.Filled s.output.path.bytes place (Text.encode text) o.tree
  code_eq_aborted_iff : o.code = 101 ↔ ∃ s g, r.Aborts c t s g
  /-- Nothing is said, and nothing changes. -/
  aborted : o.code = 101 → o.output = "" ∧ o.report = none ∧ o.tree = t
  /-- There is a first stage that fails. -/
  otherwise : o.code ≠ 0 → o.code ≠ 101 → o.code = 1 ∧ ∃ failure, r.Fails c t failure o.tree
  /-- The first stage that fails is reported. Nothing changes, unless the device takes a part of the
  document only, and then that stands in the file that the settings name. -/
  failed : ∀ failure after, r.Fails c t failure after →
    o.code = 1 ∧ o.report = some ("Error: " ++ failure.message) ∧ o.tree = after ∧
      (after = t ∨ ∃ s g text place count cause, r.Loads c t s g ∧
        g.document s.output.indent = some text ∧
        c.device.breaksOff place (Text.encode text) = some (count, cause) ∧
        failure = .merging (.writeOutput s.output.path.bytes cause) ∧
        t.Filled s.output.path.bytes place ((Text.encode text).extract 0 count) after)

/-- A run ends with 0 if and only if every stage succeeds; then the document stands in the file that
the settings name, and all else is as it was. It ends with 101, and says nothing, if and only if the
settings ask for more spaces than the document can have, or for too long a document; nothing changes
then. Otherwise it ends with 1 and reports how the first stage that fails does so. Nothing changes
then either, unless the device takes a part of the document only, and then that stands in the file
that the settings name. -/
theorem perform_run {arguments : List Text} {r : Run}
    (hrun : Request.ofArguments arguments = .run r) (c : Circumstances) (t : Tree) :
    r.EndsWith c t (perform c t arguments) := by
  obtain ⟨hdone, hfailed, haborted⟩ := code_perform_eq_iff hrun c t
  refine ⟨hdone, fun s g text after h => ?_, haborted, fun hcode => ?_, fun hzero habort => ?_,
    fun failure after h => ?_⟩
  · rw [perform_of_succeeds hrun h]
    obtain ⟨place, hfilled⟩ := h.exists_filled
    have hlookUp := Tree.lookUp_eq_ok_iff.2 ⟨place, hfilled.resolve, hfilled.file⟩
    refine ⟨rfl, ?_, place, hfilled⟩
    rw [Tree.read_of_lookUp hlookUp, Text.decode?_encode]
  · obtain ⟨s, g, h⟩ := haborted.1 hcode
    rw [perform_of_aborts hrun h]
    exact ⟨rfl, rfl, rfl⟩
  · rcases r.succeeds_or_fails_or_aborts c t with h | ⟨failure, after, h⟩ | h
    · exact absurd (hdone.2 h) hzero
    · rw [perform_of_fails hrun h]
      exact ⟨rfl, failure, h⟩
    · exact absurd (haborted.2 h) habort
  · rw [perform_of_fails hrun h]
    exact ⟨rfl, rfl, rfl, h.eq_or_exists_filled⟩

/-- The document is written through a link that leads to a free name, and is found under the link.
If the device breaks off after two bytes, these two are. A root that does not exist is reported, and
a local settings file that asks for too many spaces ends the run before anything is written. -/
theorem perform_run_through_link :
    let settings := "[output]\nindent = '9223372036854775808'\n".toList
    let below (rest : List (Place × Entry)) : Tree := ⟨([.of "g"], .directory) ::
      ([.of "docs"], .directory) :: ([.of "o.json"], .link (.of "docs/g.json")) ::
      ([.of "a.bnf", .of "g"], .file "<a> ::= 'x'\n".toUTF8) :: rest, []⟩
    let t := below []
    let wide := below [([.of "bnf.toml"], .file (Text.encode settings))]
    let full : Circumstances :=
      { device := { breaksOff := fun _ _ => some (2, .device "full".toList) } }
    let arguments := ["g".toList, "-o".toList, "o.json".toList]
    let misspelt := ["h".toList, "-o".toList, "o.json".toList]
    let g : Grammar := ⟨[⟨"a".toList, "'x'".toList⟩]⟩
    Request.ofArguments arguments = .run ⟨"g".toList, some "o.json".toList, none, none, false⟩ ∧
      (perform {} t arguments).code = 0 ∧
      (perform {} t arguments).tree.read (.of "o.json") = .ok (g.layout 4) ∧
      (∃ place, t.Filled (.of "o.json") place (Text.encode (g.layout 4))
        (perform {} t arguments).tree) ∧
      (perform full t arguments).code = 1 ∧
      (perform full t arguments).report =
        some "Error: Failed to write o.json: full" ∧
      (perform full t arguments).tree.read (.of "o.json") = .ok "\x7b\n".toList ∧
      (perform {} t misspelt).report = some "Error: Folder not found: h" ∧
      (perform {} t misspelt).tree = t ∧
      (perform {} wide arguments).code = 101 ∧ (perform {} wide arguments).tree = wide := by
  intro settings below t wide full arguments misspelt g
  let r : Run := ⟨"g".toList, some "o.json".toList, none, none, false⟩
  have hrun : Request.ofArguments arguments = .run r := by decide +kernel
  have hrun' : Request.ofArguments misspelt =
      .run ⟨"h".toList, some "o.json".toList, none, none, false⟩ := by decide +kernel
  have ho : Settings.Targeted r.overrides := by decide +kernel
  let s : Settings := ⟨{}, {}, ⟨"o.json".toList, 4⟩⟩
  let place : Place := [.of "g.json", .of "docs"]
  have hloads : ∀ c : Circumstances, c.orders = {} → r.Loads c t s g := by
    intro c horders
    have hread : (Settings.Layer.optional localSettings c.localOrder).read t = .ok [] := by
      refine Settings.read_optional_of_absent ?_ _
      simp only [t, below]
      cbv
    refine ⟨?_, ?_, ?_⟩
    · simp only [t, below, r]
      cbv
    · refine (Settings.build_of_read hread Settings.merged_nil.plain ho c.orders).trans ?_
      rw [horders]
      decide +kernel
    · simp only [t, below, s, r, g]
      cbv
  have hrendered : g.document 4 = some (g.layout 4) := by decide +kernel
  have hopen : ∀ d : Tree.Device, d.refuses place = none →
      t.openFile d s.output.path.bytes = .ok (place, t.put place (.file .empty)) := by
    intro d hrefuses
    refine Tree.openFile_eq_ok_iff.2 ⟨by decide +kernel, by decide +kernel, ⟨.free place, ?_, rfl⟩,
      ?_, hrefuses, rfl⟩
    · simp only [t, below, s, place]
      cbv
    · have hfree : t.get? place = none := by
        simp only [t, below, place]
        cbv
      rw [hfree]
      simp
  let after : Tree := t.put place (.file (Text.encode (g.layout 4)))
  have hsucceeds : r.Succeeds {} t s g (g.layout 4) after :=
    ⟨hloads {} rfl, hrendered, Tree.write_eq_ok_iff.2 ⟨place, _, hopen _ rfl, rfl, rfl⟩⟩
  let part : Tree := t.put place (.file ((Text.encode (g.layout 4)).extract 0 2))
  have hbroken : r.Fails full t (.merging (.writeOutput (.of "o.json") (.device "full".toList)))
      part :=
    .written (hloads full rfl) hrendered
      (Tree.write_eq_error_iff.2 (Or.inr ⟨place, _, 2, hopen _ rfl, rfl, rfl⟩))
  have hmissing : t.isDirectory (.of "h") = false := by
    simp only [t, below]
    cbv
  have hwide : r.Aborts {} wide ⟨{}, {}, ⟨"o.json".toList, 9223372036854775808⟩⟩ g := by
    have htree : ∀ a : ByteArray,
        let wide := below [([.of "bnf.toml"], .file a)]
        wide.lookUp localSettings = .ok (.file a) ∧ wide.isDirectory r.rootPath = true ∧
          Grammar.load wide {} {} r.rootPath = .ok g := by
      intro a
      simp only [below, r, g]
      refine ⟨?_, ?_, ?_⟩ <;> cbv
    obtain ⟨hlook, hroot, hgrammar⟩ := htree (Text.encode settings)
    let given : List (Text × Settings.Value) := [("output".toList, .table [("indent".toList,
      .datum (.string "9223372036854775808".toList) (some localSettings))] (some localSettings))]
    have hread : (Settings.Layer.optional localSettings .asWritten).read wide = .ok given := by
      rw [Settings.Layer.read, Settings.readFile_of_lookUp hlook]
      decide +kernel
    refine ⟨⟨hroot, ?_, hgrammar⟩, ?_⟩
    · exact (Settings.build_of_read hread (by decide +kernel) ho {}).trans (by decide +kernel)
    · exact fun hfits => absurd hfits.1 (by decide +kernel)
  have hends := perform_run hrun {} t
  obtain ⟨-, hwritten, hfilled⟩ := hends.done _ _ _ _ hsucceeds
  obtain ⟨hcode', hreport', htree', -⟩ := (perform_run hrun full t).failed _ _ hbroken
  obtain ⟨-, hreport'', htree'', -⟩ := (perform_run hrun' {} t).failed _ _ (.root hmissing)
  have hendsWide := perform_run hrun {} wide
  have hcodeWide := hendsWide.code_eq_aborted_iff.2 ⟨_, _, hwide⟩
  refine ⟨hrun, hends.code_eq_zero_iff.2 ⟨_, _, _, _, hsucceeds⟩, hwritten, hfilled, hcode', ?_, ?_,
    hreport'', htree'', hcodeWide, (hendsWide.aborted hcodeWide).2.2⟩
  · rw [hreport']
    decide +kernel
  · have hpart := Tree.filled_of_openFile (hopen full.device rfl)
      ((Text.encode (g.layout 4)).extract 0 2)
    have hlook := Tree.lookUp_eq_ok_iff.2 ⟨place, hpart.resolve, hpart.file⟩
    rw [htree']
    exact (Tree.read_of_lookUp hlook).trans (by decide +kernel)

end Rulebook.CommandLine
