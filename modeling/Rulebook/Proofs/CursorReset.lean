import Rulebook.Proofs.FileMerge

/-!
# Resetting the cursor

If the cursor is reset, a continuation reaches the headers of its own file alone, and so fewer than
if it is kept. A reset can make an offence of a continuation and of nothing else
(`offence?_eq_orphanedContent`), so events that are clean with it are clean without
(`clean_of_clean_reset`). They are clean with it as well if every file starts with a header, which
puts the cursor where it would be without a reset (`clean_ofSources_reset_iff`). The rules are
then the same (`ofSources_reset_iff`).
-/

namespace Rulebook

namespace Event

/-! ## One event -/

/-- What is an offence if the cursor is reset, and is none if it is kept, is a continuation. -/
theorem offence?_eq_orphanedContent {before : List Event} {event : Event} {e : Error}
    (hkept : offence? false before event = none) (hreset : offence? true before event = some e) :
    ∃ text place, e = .orphanedContent text (some place) := by
  cases event with
  | opened => simp [offence?] at hreset
  | failed error => simp [offence?] at hkept
  | line place text =>
    cases hclass : Line.classify text with
    | header name definition =>
      rw [offence?_of_header hclass] at hkept hreset
      exact absurd (hkept.symm.trans hreset) (by simp)
    | continuation shown =>
      rw [offence?_of_continuation hclass] at hreset
      obtain ⟨-, he⟩ := Option.ite_none_right_eq_some.1 hreset
      exact ⟨text, place, (Option.some.inj he).symm⟩

/-- An event that is no offence if the cursor is reset is none if it is kept. -/
theorem offence?_of_reset {before : List Event} {event : Event}
    (h : offence? true before event = none) : offence? false before event = none := by
  cases event with
  | opened => rfl
  | failed error => exact h
  | line place text =>
    cases hclass : Line.classify text with
    | header name definition =>
      rw [offence?_of_header hclass] at h ⊢
      exact h
    | continuation shown =>
      rw [offence?_of_continuation hclass] at h ⊢
      have hreach : names (reach true before) ≠ [] := by simpa using h
      have hbefore : names (reach false before) ≠ [] := by
        intro hnil
        exact hreach (List.suffix_nil.1 (hnil ▸ names_reach_suffix true before))
      rw [if_neg hbefore]

/-! ## Events in a row -/

/-- What is clean although every file clears the cursor is clean if none does. -/
theorem clean_of_clean_reset {before events : List Event} (h : Clean true before events) :
    Clean false before events :=
  fun done event rest heq => offence?_of_reset (h done event rest heq)

/-- Behind a header the cursor is where it would be without a reset. -/
theorem clean_reset_of_clean : ∀ {files : List SourceFile} {before : List Event},
    (names before).Nodup → Clean false before (ofSources (files.map .ok)) →
    (∀ file ∈ files, Line.StartsWithHeader (Line.ofText file.text)) →
    Clean true before (ofSources (files.map .ok))
  | [], _, _, _, _ => clean_nil _ _
  | file :: files, before, hbefore, hclean, hfirst => by
    obtain ⟨hfile, hfiles⟩ := List.forall_mem_cons.1 hfirst
    have hopened : (names (before ++ [opened])).Nodup := by simpa using hbefore
    have hlines : ∀ e ∈ Event.ofText (some file.path) file.text, ∃ place shown,
        e = line place shown := fun e he => exists_line_of_mem_ofText he
    rw [List.map_cons, ofSources_cons_ok, clean_cons, clean_append] at hclean ⊢
    obtain ⟨-, hkept, hrest⟩ := hclean
    have hnodup := ((clean_lines_iff hopened hlines).1 hkept).2
    refine ⟨rfl, (clean_lines_iff hopened hlines).2 ⟨fun _ => ?_, hnodup⟩, ?_⟩
    · rw [lines_ofText]
      exact hfile
    · exact clean_reset_of_clean hnodup hrest hfiles

/-- Files are clean with the cursor reset if and only if they are clean with it kept and each of
them starts with a header. -/
theorem clean_ofSources_reset_iff {files : List SourceFile} :
    Clean true [] (ofSources (files.map .ok)) ↔ Clean false [] (ofSources (files.map .ok)) ∧
      ∀ file ∈ files, Line.StartsWithHeader (Line.ofText file.text) := by
  have hnil : (names []).Nodup := List.nodup_nil
  constructor
  · intro h
    have hfirst := ((clean_ofSources_iff hnil).1 h).1
    exact ⟨clean_of_clean_reset h, fun file hfile => hfirst _ (List.mem_map_of_mem hfile)⟩
  · rintro ⟨hkept, hfirst⟩
    exact clean_reset_of_clean hnil hkept hfirst

end Event

open Event

/-! ## What files give -/

/-- Files that are read with the cursor cleared are read the same with the cursor kept, and each
of them starts with a header. -/
theorem Grammar.ofSources_reset_eq_ok_iff_kept {files : List SourceFile} {g : Grammar} :
    ofSources ⟨true⟩ (files.map .ok) = .ok g ↔ ofSources ⟨false⟩ (files.map .ok) = .ok g ∧
      ∀ file ∈ files, Line.StartsWithHeader (Line.ofText file.text) := by
  rw [ofSources_eq_ofEvents, ofSources_eq_ofEvents, ofEvents_eq_ok_iff, ofEvents_eq_ok_iff]
  show Clean true [] _ ∧ _ ↔ (Clean false [] _ ∧ _) ∧ _
  rw [clean_ofSources_reset_iff, and_right_comm]

/-- What is lost by a reset is lost to a continuation that reaches no header. -/
theorem Grammar.eq_orphanedContent_of_reset {files : List SourceFile} {g : Grammar} {e : Error}
    (hkept : ofSources ⟨false⟩ (files.map .ok) = .ok g)
    (hreset : ofSources ⟨true⟩ (files.map .ok) = .error e) :
    ∃ text place, e = .orphanedContent text (some place) := by
  rw [ofSources_eq_ofEvents] at hkept hreset
  obtain ⟨hclean, haccepts, -⟩ := ofEvents_eq_ok_iff.1 hkept
  rcases ofEvents_eq_error_iff.1 hreset with ⟨done, event, rest, heq, -, hoff⟩ | ⟨-, hrejected⟩
  · exact offence?_eq_orphanedContent (hclean done event rest heq) hoff
  · have hcheck := check_of_firstRejected hrejected
    rw [check_of_accepts haccepts] at hcheck
    nomatch hcheck

/-- Files give a grammar with the cursor reset if and only if they give it with the cursor kept,
with the same rules in the same order, and the first line of each that is not blank is a header.
Otherwise what they give with the cursor kept is lost to a continuation that reaches no header.
The same holds of files that are loaded from a tree. -/
theorem ofSources_reset_iff (files : List SourceFile) :
    (∀ g, Grammar.ofSources ⟨true⟩ (files.map .ok) = .ok g ↔
      Grammar.ofSources ⟨false⟩ (files.map .ok) = .ok g ∧
        ∀ file ∈ files, Line.StartsWithHeader (Line.ofText file.text)) ∧
    (∀ g e, Grammar.ofSources ⟨false⟩ (files.map .ok) = .ok g →
      Grammar.ofSources ⟨true⟩ (files.map .ok) = .error e →
      ∃ text place, e = .orphanedContent text (some place)) ∧
    ∀ (t : Tree) (settings : SourceSettings) (root : Path),
      SourceFile.collect t settings root = .ok (files.map .ok) →
      ∀ g, Grammar.load t settings ⟨true⟩ root = .ok g ↔
        Grammar.load t settings ⟨false⟩ root = .ok g ∧
          ∀ file ∈ files, Line.StartsWithHeader (Line.ofText file.text) := by
  refine ⟨fun g => Grammar.ofSources_reset_eq_ok_iff_kept,
    fun g e => Grammar.eq_orphanedContent_of_reset, fun t settings root hcollect g => ?_⟩
  rw [Grammar.load_of_collect hcollect, Grammar.load_of_collect hcollect]
  exact Grammar.ofSources_reset_eq_ok_iff_kept

/-- A blank file between two that start with headers makes no difference. A continuation at the
start of a file extends the rule of the file before it, unless the cursor is reset. -/
theorem ofSources_reset_iff_at_starts :
    let files : List SourceFile := [⟨.of "g/a.bnf", "\n<a> ::= 'x'\n | <b>".toList⟩,
      ⟨.of "g/b.bnf", " \n".toList⟩, ⟨.of "g/c.bnf", "<b> ::= 'y'".toList⟩]
    let g : Grammar := ⟨[⟨"a".toList, "'x' | <b>".toList⟩, ⟨"b".toList, "'y'".toList⟩]⟩
    let t : Tree := ⟨[([.of "g"], .directory),
      ([.of "a.bnf", .of "g"], .file "\n<a> ::= 'x'\n | <b>".toUTF8),
      ([.of "b.bnf", .of "g"], .file " \n".toUTF8),
      ([.of "c.bnf", .of "g"], .file "<b> ::= 'y'".toUTF8)], []⟩
    let others : List SourceFile := [⟨.of "g/a.bnf", "<a> ::= 'x'".toList⟩,
      ⟨.of "g/b.bnf", "\n | <b>\n<b> ::= 'y'".toList⟩]
    SourceFile.collect t {} (.of "g") = .ok (files.map .ok) ∧
      Grammar.load t {} ⟨true⟩ (.of "g") = .ok g ∧
      Grammar.load t {} ⟨false⟩ (.of "g") = .ok g ∧
      (∀ file ∈ files, Line.StartsWithHeader (Line.ofText file.text)) ∧
      Grammar.ofSources ⟨false⟩ (others.map .ok) = .ok g ∧
      (¬∀ file ∈ others, Line.StartsWithHeader (Line.ofText file.text)) ∧
      ∃ text place, Grammar.ofSources ⟨true⟩ (others.map .ok) =
        .error (.orphanedContent text (some place)) := by
  intro files g t others
  have hcollect : SourceFile.collect t {} (.of "g") = .ok (files.map .ok) := by
    simp only [t, files]
    cbv
  have hfiles : Grammar.ofSources ⟨true⟩ (files.map .ok) = .ok g := by cbv
  have hload : Grammar.load t {} ⟨true⟩ (.of "g") = .ok g :=
    (Grammar.load_of_collect hcollect _).trans hfiles
  have hothers : Grammar.ofSources ⟨false⟩ (others.map .ok) = .ok g := by cbv
  have horphan : Grammar.ofSources ⟨true⟩ (others.map .ok) =
      .error (.orphanedContent "| <b>".toList (some ⟨some (.of "g/b.bnf"), 2⟩)) := by cbv
  obtain ⟨hkept, hfirst⟩ := ((ofSources_reset_iff files).2.2 t {} _ hcollect g).1 hload
  refine ⟨hcollect, hload, hkept, hfirst, hothers, fun hall => ?_, ?_⟩
  · have hok := ((ofSources_reset_iff others).1 g).2 ⟨hothers, hall⟩
    exact absurd (hok.symm.trans horphan) (by simp)
  · obtain ⟨text, place, he⟩ := (ofSources_reset_iff others).2.1 g _ hothers horphan
    exact ⟨text, place, he ▸ horphan⟩

end Rulebook
