import Rulebook.Proofs.Outcome

/-!
# Files that are read as one text

If the open rule is kept from one file to the next, where a file ends says nothing. A run then
does what adding the lines one after another does (`Reader.run_unlocated`), but for the places
at which an error is located. The lines of files are those of their texts joined by line feeds,
so that reading the files comes to reading that one text (`ofSources_joins`).
-/

namespace Rulebook

open Text

/-! ## Errors without their places -/

/-- The error as it is before it is located. -/
def Error.unlocated : Error → Error
  | duplicateRule name _ => duplicateRule name none
  | orphanedContent line _ => orphanedContent line none
  | e => e

@[simp] theorem Error.unlocated_locate (place : Location) (e : Error) :
    (e.locate place).unlocated = e.unlocated := by
  cases e with
  | duplicateRule _ location => cases location <;> rfl
  | orphanedContent _ location => cases location <;> rfl
  | _ => rfl

/-- The result, with an error as it is before it is located. -/
def unlocated {α : Type} (result : Except Error α) : Except Error α :=
  result.mapError Error.unlocated

/-- What comes after a step does not tell where the step has failed. -/
theorem unlocated_bind_congr {α β : Type} {x y : Except Error α} (h : unlocated x = unlocated y)
    (f : α → Except Error β) : unlocated (x >>= f) = unlocated (y >>= f) := by
  cases x with
  | ok a =>
    cases y with
    | ok b =>
      obtain rfl : a = b := Except.ok.inj h
      rfl
    | error e => nomatch h
  | error e =>
    cases y with
    | ok b => nomatch h
    | error e' =>
      have he : e.unlocated = e'.unlocated := Except.error.inj h
      exact congrArg Except.error he

/-! ## Events without failures -/

namespace Event

theorem failed_not_mem_ofText (path : Option Path) (text : Text) (error : Error) :
    failed error ∉ ofText path text := by
  intro h
  obtain ⟨_, _, heq⟩ := exists_line_of_mem_ofText h
  simp at heq

/-- Files that are read make no failure. -/
theorem failed_not_mem_ofSources (files : List SourceFile) (error : Error) :
    failed error ∉ ofSources (files.map .ok) := by
  simp [ofSources, ofSource, failed_not_mem_ofText]

end Event

open Event

/-! ## Runs without places -/

/-- With the cursor kept, a run adds the lines one after another, wherever they are. -/
theorem Reader.run_unlocated : ∀ {events : List Event} (r : Reader),
    (∀ error, Event.failed error ∉ events) →
    unlocated (run false events r) = unlocated ((texts events).foldlM addLine r)
  | [], _, _ => rfl
  | .failed error :: _, _, h => absurd List.mem_cons_self (h error)
  | .opened :: events, r, h => by
    have hrest : ∀ error, Event.failed error ∉ events := fun error herror =>
      h error (List.mem_cons_of_mem _ herror)
    rw [run_cons_of_ok events rfl]
    exact run_unlocated r hrest
  | .line place text :: events, r, h => by
    have hrest : ∀ error, Event.failed error ∉ events := fun error herror =>
      h error (List.mem_cons_of_mem _ herror)
    show _ = unlocated (r.addLine text >>= fun r' => (texts events).foldlM addLine r')
    cases hline : r.addLine text with
    | ok r' =>
      rw [run_cons_of_ok events (by rw [step, hline])]
      exact run_unlocated r' hrest
    | error e =>
      rw [run_cons_of_error events (by rw [step, hline])]
      exact congrArg Except.error (e.unlocated_locate place)

/-- With the cursor kept, what events give is said by the texts of their lines. -/
theorem Grammar.ofEvents_unlocated {es fs : List Event} (htexts : texts es = texts fs)
    (hes : ∀ error, Event.failed error ∉ es) (hfs : ∀ error, Event.failed error ∉ fs) :
    unlocated (ofEvents false es) = unlocated (ofEvents false fs) := by
  refine unlocated_bind_congr ?_ _
  rw [Reader.run_unlocated _ hes, Reader.run_unlocated _ hfs, htexts]

/-! ## Files and the text that they make up -/

/-- With the cursor kept, files give what their texts give that are joined by line feeds,
whatever each ends with : the same rules in the same order, or an error that is the same but
for where it is located. So does loading them from a tree. -/
theorem ofSources_joins (files : List SourceFile) :
    unlocated (Grammar.ofSources ⟨false⟩ (files.map .ok)) =
      unlocated (Grammar.ofText (joinWith ['\n'] (files.map SourceFile.text))) ∧
    ∀ (t : Tree) (settings : SourceSettings) (root : Path),
      SourceFile.collect t settings root = .ok (files.map .ok) →
      unlocated (Grammar.load t settings ⟨false⟩ root) =
        unlocated (Grammar.ofText (joinWith ['\n'] (files.map SourceFile.text))) := by
  have htexts : texts (ofSources (files.map .ok)) =
      texts (Event.ofText none (joinWith ['\n'] (files.map SourceFile.text))) := by
    rw [texts_ofSources, texts_ofText, content_joinWith]
  have hjoin : unlocated (Grammar.ofSources ⟨false⟩ (files.map .ok)) =
      unlocated (Grammar.ofText (joinWith ['\n'] (files.map SourceFile.text))) := by
    rw [Grammar.ofSources_eq_ofEvents, Grammar.ofText_eq_ofEvents false]
    exact Grammar.ofEvents_unlocated htexts (failed_not_mem_ofSources files)
      (failed_not_mem_ofText none _)
  refine ⟨hjoin, fun t settings root hcollect => ?_⟩
  have hload : Grammar.load t settings ⟨false⟩ root =
      Grammar.ofSources ⟨false⟩ (files.map .ok) := by
    rw [Grammar.load, hcollect]
    rfl
  rw [hload, hjoin]

/-- A carriage return at the end of a file, a quote that the next but one closes, an empty file
between, and a name that is taken : the rule is the same, and only its place is told apart. -/
theorem ofSources_joins_across_quote :
    let files : List SourceFile := [⟨.of "g/a.bnf", "<a> ::= 'x\r".toList⟩,
      ⟨.of "g/b.bnf", []⟩, ⟨.of "g/c.bnf", "y'\n<a> ::=".toList⟩]
    let t : Tree := ⟨[([.of "g"], .directory),
      ([.of "a.bnf", .of "g"], .file "<a> ::= 'x\r".toUTF8),
      ([.of "b.bnf", .of "g"], .file "".toUTF8),
      ([.of "c.bnf", .of "g"], .file "y'\n<a> ::=".toUTF8)], []⟩
    SourceFile.collect t {} (.of "g") = .ok (files.map .ok) ∧
      Grammar.load t {} ⟨false⟩ (.of "g") =
        .error (.duplicateRule "a".toList (some ⟨some (.of "g/c.bnf"), 2⟩)) ∧
      Grammar.ofText (joinWith ['\n'] (files.map SourceFile.text)) =
        .error (.duplicateRule "a".toList (some ⟨none, 4⟩)) ∧
      unlocated (Grammar.load t {} ⟨false⟩ (.of "g")) =
        unlocated (Grammar.ofText (joinWith ['\n'] (files.map SourceFile.text))) := by
  intro files t
  have hcollect : SourceFile.collect t {} (.of "g") = .ok (files.map .ok) := by
    simp only [t, files]
    cbv
  have hfiles : Grammar.ofSources ⟨false⟩ (files.map .ok) =
      .error (.duplicateRule "a".toList (some ⟨some (.of "g/c.bnf"), 2⟩)) := by cbv
  have htext : Grammar.ofText (joinWith ['\n'] (files.map SourceFile.text)) =
      .error (.duplicateRule "a".toList (some ⟨none, 4⟩)) := by cbv
  refine ⟨hcollect, ?_, htext, (ofSources_joins files).2 t {} _ hcollect⟩
  rw [Grammar.load, hcollect]
  exact hfiles

end Rulebook
