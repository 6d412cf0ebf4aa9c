import Rulebook.Proofs.Outcome

/-!
# Files that are read apart

If every file starts with no open rule, nothing of one file reaches into the next. The
events of the files are clean if and only if each file starts with a header and no name is
taken twice (`clean_ofSources_iff`), so that reading the files together comes to reading
each on its own and putting the rules one after another, and the order of the files matters
to the order of the rules alone (`ofSources_merges`).
-/

namespace Rulebook

open Event

/-! ## The events of files -/

/-- The lines of files are those of one file after the other. -/
theorem lines_ofSources (files : List SourceFile) :
    lines (ofSources (files.map .ok)) = (files.map SourceFile.text).flatMap Line.ofText := by
  rw [lines_eq_map_texts, texts_ofSources, List.map_flatMap]
  rfl

theorem names_ofSources (files : List SourceFile) :
    names (ofSources (files.map .ok)) =
      (files.map SourceFile.text).flatMap fun text => Line.names (Line.ofText text) := by
  rw [names, lines_ofSources, Line.names, List.filterMap_flatMap]
  rfl

/-- With the cursor reset, files are clean if and only if each starts with a header and no
name is taken twice. -/
theorem clean_ofSources_iff : ∀ {files : List SourceFile} {before : List Event},
    (names before).Nodup → (Clean true before (ofSources (files.map .ok)) ↔
      (∀ text ∈ files.map SourceFile.text, Line.StartsWithHeader (Line.ofText text)) ∧
        (names (before ++ ofSources (files.map .ok))).Nodup)
  | [], before, hbefore => by simpa [ofSources] using hbefore
  | file :: files, before, hbefore => by
    have hopened : (names (before ++ [opened])).Nodup := by simpa using hbefore
    have hreach : names (reach true (before ++ [opened])) = [] := names_reach_concat_opened _ _
    have hlines : ∀ e ∈ Event.ofText (some file.path) file.text, ∃ place shown,
        e = line place shown := fun e he => exists_line_of_mem_ofText he
    have hoffence : offence? true before opened = none := rfl
    rw [List.map_cons, List.map_cons, ofSources_cons_ok, clean_cons, clean_append,
      clean_lines_iff hopened hlines, hreach, lines_ofText]
    rw [List.append_cons before _ (Event.ofText (some file.path) file.text ++ _),
      ← List.append_assoc, List.forall_mem_cons]
    refine ⟨?_, ?_⟩
    · rintro ⟨-, ⟨hfirst, hnodup⟩, hrest⟩
      obtain ⟨hfiles, hnodup⟩ := (clean_ofSources_iff hnodup).1 hrest
      exact ⟨⟨hfirst rfl, hfiles⟩, hnodup⟩
    · rintro ⟨⟨hfirst, hfiles⟩, hnodup⟩
      have hfile := hnodup
      rw [names_append] at hfile
      refine ⟨hoffence, ⟨fun _ => hfirst, hfile.of_append_left⟩, ?_⟩
      exact (clean_ofSources_iff hfile.of_append_left).2 ⟨hfiles, hnodup⟩

/-! ## Merging -/

/-- With the cursor reset, whether files give a grammar depends on their texts alone : each
starts with a header, no name is taken twice, and every definition is accepted. -/
theorem ofSources_reset_eq_ok_iff {files : List SourceFile} {g : Grammar} :
    Grammar.ofSources ⟨true⟩ (files.map .ok) = .ok g ↔
      (∀ text ∈ files.map SourceFile.text, Line.StartsWithHeader (Line.ofText text)) ∧
      ((files.map SourceFile.text).flatMap fun text => Line.names (Line.ofText text)).Nodup ∧
      (∀ text ∈ files.map SourceFile.text, ∀ r ∈ blockRules (Line.ofText text),
        Token.Accepts r.definition) ∧
      g.rules = (files.map SourceFile.text).flatMap fun text => blockRules (Line.ofText text) := by
  have hnil : (names []).Nodup := List.nodup_nil
  have hclean := @clean_ofSources_iff files [] hnil
  rw [Grammar.ofSources_eq_ofEvents, Grammar.ofEvents_eq_ok_iff]
  show Clean true [] _ ∧ _ ↔ _
  rw [hclean, List.nil_append, names_ofSources, lines_ofSources, and_assoc]
  refine and_congr_right fun hfirst => ?_
  rw [(blockRules_flatMap Line.ofText hfirst).2]
  simp only [List.mem_flatMap, forall_exists_index, and_imp]
  refine ⟨?_, ?_⟩
  · rintro ⟨hnames, haccepts, hrules⟩
    exact ⟨hnames, fun text htext r hr => haccepts r text htext hr, hrules⟩
  · rintro ⟨hnames, haccepts, hrules⟩
    exact ⟨hnames, fun r text htext hr => haccepts text htext r hr, hrules⟩

/-- Texts that are grammars, each on its own, are so with the rules of their blocks. -/
theorem map_ofText_eq_iff : ∀ {texts : List Text} {gs : List Grammar},
    texts.map Grammar.ofText = gs.map .ok ↔
      (∀ text ∈ texts, Line.StartsWithHeader (Line.ofText text) ∧
        (Line.names (Line.ofText text)).Nodup ∧
        ∀ r ∈ blockRules (Line.ofText text), Token.Accepts r.definition) ∧
      gs = texts.map fun text => ⟨blockRules (Line.ofText text)⟩
  | [], gs => by simp [eq_comm]
  | text :: texts, [] => by simp
  | text :: texts, ⟨rules⟩ :: gs => by
    rw [List.map_cons, List.map_cons, List.cons.injEq, Grammar.ofText_eq_ok_iff,
      map_ofText_eq_iff, List.forall_mem_cons, List.map_cons, List.cons.injEq]
    refine ⟨?_, ?_⟩
    · rintro ⟨⟨hfirst, hnames, haccepts, rfl⟩, htexts, rfl⟩
      exact ⟨⟨⟨hfirst, hnames, haccepts⟩, htexts⟩, rfl, rfl⟩
    · rintro ⟨⟨⟨hfirst, hnames, haccepts⟩, htexts⟩, hrules, rfl⟩
      exact ⟨⟨hfirst, hnames, haccepts, congrArg Grammar.rules hrules⟩, htexts, rfl⟩

/-- With the cursor reset, files give a grammar if and only if each text gives one and no
two of these share a name; the rules are then those of the texts, one text after another. -/
theorem ofSources_reset_eq_ok_iff_ofText {files : List SourceFile} {g : Grammar} :
    Grammar.ofSources ⟨true⟩ (files.map .ok) = .ok g ↔
      ∃ gs : List Grammar, (files.map SourceFile.text).map Grammar.ofText = gs.map .ok ∧
        gs.Pairwise (fun a b => a.names.Disjoint b.names) ∧
        g.rules = gs.flatMap Grammar.rules := by
  rw [ofSources_reset_eq_ok_iff, List.nodup_flatMap]
  generalize files.map SourceFile.text = texts
  have hpairwise : (texts.map fun text => (⟨blockRules (Line.ofText text)⟩ : Grammar)).Pairwise
        (fun a b => a.names.Disjoint b.names) ↔
      texts.Pairwise (Function.onFun List.Disjoint fun text =>
        Line.names (Line.ofText text)) := by
    simp only [List.pairwise_map, Grammar.names, map_name_blockRules]
  simp only [map_ofText_eq_iff, and_assoc]
  refine ⟨?_, ?_⟩
  · rintro ⟨hfirst, hnames, hdisjoint, haccepts, hrules⟩
    refine ⟨_, fun text htext => ⟨hfirst text htext, hnames text htext, haccepts text htext⟩,
      rfl, hpairwise.2 hdisjoint, ?_⟩
    rw [hrules, List.flatMap_map]
  · rintro ⟨gs, htexts, rfl, hdisjoint, hrules⟩
    refine ⟨fun text htext => (htexts text htext).1, fun text htext => (htexts text htext).2.1,
      hpairwise.1 hdisjoint, fun text htext => (htexts text htext).2.2, ?_⟩
    rw [hrules, List.flatMap_map]

/-- The names of a grammar that files give are taken once. -/
theorem nodup_names_of_ofSources_reset {files : List SourceFile} {g : Grammar}
    (h : Grammar.ofSources ⟨true⟩ (files.map .ok) = .ok g) : g.names.Nodup := by
  obtain ⟨-, hnames, -, hrules⟩ := ofSources_reset_eq_ok_iff.1 h
  rw [Grammar.names, hrules, List.map_flatMap]
  simpa only [map_name_blockRules] using hnames

/-- Files in another order give a grammar as well, and the rules are the same in another
order. -/
theorem ofSources_reset_of_perm {files others : List SourceFile} {g : Grammar}
    (hperm : (files.map SourceFile.text).Perm (others.map SourceFile.text))
    (h : Grammar.ofSources ⟨true⟩ (files.map .ok) = .ok g) :
    ∃ g', Grammar.ofSources ⟨true⟩ (others.map .ok) = .ok g' ∧ g.rules.Perm g'.rules := by
  obtain ⟨hfirst, hnames, haccepts, hrules⟩ := ofSources_reset_eq_ok_iff.1 h
  refine ⟨⟨(others.map SourceFile.text).flatMap fun text => blockRules (Line.ofText text)⟩,
    ofSources_reset_eq_ok_iff.2 ⟨?_, ?_, ?_, rfl⟩, ?_⟩
  · intro text htext
    exact hfirst text (hperm.mem_iff.2 htext)
  · exact (hperm.flatMap_right _).nodup_iff.1 hnames
  · intro text htext
    exact haccepts text (hperm.mem_iff.2 htext)
  · rw [hrules]
    exact hperm.flatMap_right _

/-- With the cursor reset, reading files together comes to reading each on its own. Another
order of the files, whatever their paths, gives the same mapping or none as well. -/
theorem ofSources_merges (files : List SourceFile) :
    (∀ g, Grammar.ofSources ⟨true⟩ (files.map .ok) = .ok g ↔
      ∃ gs : List Grammar, (files.map SourceFile.text).map Grammar.ofText = gs.map .ok ∧
        gs.Pairwise (fun a b => a.names.Disjoint b.names) ∧
        g.rules = gs.flatMap Grammar.rules) ∧
    (∀ others : List SourceFile,
      (files.map SourceFile.text).Perm (others.map SourceFile.text) →
      ((∃ g, Grammar.ofSources ⟨true⟩ (files.map .ok) = .ok g) ↔
        ∃ g', Grammar.ofSources ⟨true⟩ (others.map .ok) = .ok g') ∧
      ∀ g g', Grammar.ofSources ⟨true⟩ (files.map .ok) = .ok g →
        Grammar.ofSources ⟨true⟩ (others.map .ok) = .ok g' →
        g.sameRules g' = true ∧ ∀ name, g.get? name = g'.get? name) ∧
    ∀ (t : Tree) (settings : SourceSettings) (root : Path),
      SourceFile.collect t settings root = .ok (files.map .ok) →
      Grammar.load t settings ⟨true⟩ root = Grammar.ofSources ⟨true⟩ (files.map .ok) := by
  refine ⟨fun g => ofSources_reset_eq_ok_iff_ofText, fun others hperm => ⟨⟨?_, ?_⟩, ?_⟩, ?_⟩
  · rintro ⟨g, h⟩
    obtain ⟨g', h', -⟩ := ofSources_reset_of_perm hperm h
    exact ⟨g', h'⟩
  · rintro ⟨g', h'⟩
    obtain ⟨g, h, -⟩ := ofSources_reset_of_perm hperm.symm h'
    exact ⟨g, h⟩
  · intro g g' h h'
    have hg := nodup_names_of_ofSources_reset h
    obtain ⟨g'', h'', hrules⟩ := ofSources_reset_of_perm hperm h
    obtain rfl : g'' = g' := by simpa using h''.symm.trans h'
    exact ⟨Grammar.sameRules_of_perm hg hrules, Grammar.get?_eq_of_perm hg hrules⟩
  · intro t settings root hcollect
    rw [Grammar.load, hcollect]
    rfl

/-- A file with a continuation, one with nothing but blanks, and one more rule, in the order
of the walk and backwards. -/
theorem ofSources_merges_around_blank :
    let files : List SourceFile := [⟨.of "g/a.bnf", "<a> ::= 'x'\n | <b>".toList⟩,
      ⟨.of "g/b.bnf", "\n \n".toList⟩, ⟨.of "g/c.bnf", "<b> ::= 'y'".toList⟩]
    let g : Grammar := ⟨[⟨"a".toList, "'x' | <b>".toList⟩, ⟨"b".toList, "'y'".toList⟩]⟩
    let g' : Grammar := ⟨[⟨"b".toList, "'y'".toList⟩, ⟨"a".toList, "'x' | <b>".toList⟩]⟩
    let t : Tree := ⟨[([.of "g"], .directory),
      ([.of "a.bnf", .of "g"], .file "<a> ::= 'x'\n | <b>".toUTF8),
      ([.of "b.bnf", .of "g"], .file "\n \n".toUTF8),
      ([.of "c.bnf", .of "g"], .file "<b> ::= 'y'".toUTF8)], []⟩
    SourceFile.collect t {} (.of "g") = .ok (files.map .ok) ∧
      Grammar.load t {} ⟨true⟩ (.of "g") = .ok g ∧
      (∃ gs : List Grammar, (files.map SourceFile.text).map Grammar.ofText = gs.map .ok ∧
        gs.Pairwise (fun a b => a.names.Disjoint b.names) ∧
        g.rules = gs.flatMap Grammar.rules) ∧
      Grammar.ofSources ⟨true⟩ (files.reverse.map .ok) = .ok g' ∧
      g.sameRules g' = true ∧ ∀ name, g.get? name = g'.get? name := by
  intro files g g' t
  have hcollect : SourceFile.collect t {} (.of "g") = .ok (files.map .ok) := by
    simp only [t, files]
    cbv
  have hforward : Grammar.ofSources ⟨true⟩ (files.map .ok) = .ok g := by cbv
  have hbackward : Grammar.ofSources ⟨true⟩ (files.reverse.map .ok) = .ok g' := by cbv
  have hperm : (files.map SourceFile.text).Perm (files.reverse.map SourceFile.text) :=
    (files.reverse_perm.map SourceFile.text).symm
  obtain ⟨hmerge, horder, hload⟩ := ofSources_merges files
  refine ⟨hcollect, ?_, (hmerge g).1 hforward, hbackward, ?_⟩
  · rw [hload t {} _ hcollect]
    exact hforward
  · exact (horder files.reverse hperm).2 g g' hforward hbackward

end Rulebook
