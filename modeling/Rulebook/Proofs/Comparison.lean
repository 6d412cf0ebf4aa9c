import Mathlib.Data.List.TFAE
import Mathlib.Data.List.Perm.Subperm
import Mathlib.Tactic.TFAE
import Rulebook.Proofs.Replay

/-!
# Grammars that are compared

A comparison looks up every rule of the one grammar in the other, and counts. If no name is taken
twice that is the same as that each has the rules of the other, in some order
(`Grammar.sameRules_iff_perm`), and as that nothing that is looked up tells them apart
(`Grammar.get?_eq_iff_perm`). In a grammar that operations make no name is taken twice, so that it
does not matter which of two is compared with the other (`sameRules_run`).
-/

namespace Rulebook

namespace Grammar

variable {g h : Grammar}

theorem nodup_rules (hg : g.names.Nodup) : g.rules.Nodup := .of_map Rule.name hg

/-- What is looked up once is counted once, so that as many rules as there are leave none over. -/
theorem sameRules_iff_perm (hg : g.names.Nodup) (hh : h.names.Nodup) :
    g.sameRules h = true ↔ g.rules.Perm h.rules := by
  refine ⟨fun hsame => ?_, sameRules_of_perm hg⟩
  simp only [sameRules, Bool.and_eq_true, beq_iff_eq, List.all_eq_true] at hsame
  obtain ⟨hsize, hfound⟩ := hsame
  have hsubset : g.rules ⊆ h.rules := fun r hr => (get?_eq_some_iff hh).1 (hfound r hr)
  exact ((nodup_rules hg).subperm hsubset).perm_of_length_le hsize.ge

/-- The definitions under all names are the rules. -/
theorem get?_eq_iff_perm (hg : g.names.Nodup) (hh : h.names.Nodup) :
    (∀ name, g.get? name = h.get? name) ↔ g.rules.Perm h.rules := by
  refine ⟨fun hget => ?_, get?_eq_of_perm hg⟩
  refine (List.perm_ext_iff_of_nodup (nodup_rules hg) (nodup_rules hh)).2 fun r => ?_
  rw [← get?_eq_some_iff hg, ← get?_eq_some_iff hh, hget]

/-- A check does not tell in which order the rules are. -/
theorem check_eq_ok_iff_of_perm (hperm : g.rules.Perm h.rules) :
    g.check = .ok () ↔ h.check = .ok () := by
  simp only [check_eq_ok_iff, hperm.mem_iff]

end Grammar

namespace Operation

/-- No name stands twice in a grammar that operations have made. -/
theorem nodup_names_run (ops : List Operation) : (run ops).names.Nodup := by
  rw [(replayed_run ops).names_eq]
  exact (replayed_run ops).nodup_opened

end Operation

open Grammar Operation in
/-- Whatever is done to two grammars that start empty, these are the same : that they are the same
mapping, that the rules of the one are those of the other in some order, and that the same is found
in both under every name. To be the same mapping goes both ways and from one grammar to the next,
and of two grammars that are, both pass the check or none does. -/
theorem sameRules_run (ops ops' : List Operation) :
    List.TFAE [(run ops).sameRules (run ops') = true, (run ops).rules.Perm (run ops').rules,
      ∀ name, (run ops).get? name = (run ops').get? name] ∧
    (run ops).sameRules (run ops') = (run ops').sameRules (run ops) ∧
    (∀ ops'', (run ops).sameRules (run ops') = true → (run ops').sameRules (run ops'') = true →
      (run ops).sameRules (run ops'') = true) ∧
    ((run ops).sameRules (run ops') = true →
      ((run ops).check = .ok () ↔ (run ops').check = .ok ())) := by
  have hperm : ∀ ops ops', (run ops).sameRules (run ops') = true ↔
      (run ops).rules.Perm (run ops').rules := fun ops ops' =>
    sameRules_iff_perm (nodup_names_run ops) (nodup_names_run ops')
  refine ⟨?_, ?_, fun ops'' hfirst hsecond => ?_, fun hsame => ?_⟩
  · tfae_have 1 ↔ 2 := hperm ops ops'
    tfae_have 3 ↔ 2 := get?_eq_iff_perm (nodup_names_run ops) (nodup_names_run ops')
    tfae_finish
  · rw [Bool.eq_iff_iff, hperm, hperm]
    exact List.perm_comm
  · rw [hperm] at hfirst hsecond ⊢
    exact hfirst.trans hsecond
  · exact check_eq_ok_iff_of_perm ((hperm ops ops').1 hsame)

open Operation in
/-- The same rules in three orders, one of them after operations that fail, and with a definition
that is not accepted. -/
theorem sameRules_run_in_three_orders :
    let ops : List Operation := [.insert "a".toList "'x'".toList, .insert "b".toList "<a>".toList,
      .append "b".toList "$".toList]
    let ops' : List Operation := [.append "a".toList "'y'".toList,
      .insert "b".toList "<a>".toList, .insert "b".toList "'z'".toList,
      .append "b".toList "$".toList, .insert "a".toList "'x'".toList]
    let ops'' : List Operation := [.insert "b".toList "<a> $".toList,
      .insert "a".toList "'x'".toList]
    (run ops).rules ≠ (run ops').rules ∧ (run ops).rules.Perm (run ops').rules ∧
      (∀ name, (run ops).get? name = (run ops').get? name) ∧
      (run ops').sameRules (run ops) = true ∧ (run ops).sameRules (run ops'') = true ∧
      ((run ops).check = .ok () ↔ (run ops').check = .ok ()) := by
  intro ops ops' ops''
  obtain ⟨htfae, hsymm, htrans, hcheck⟩ := sameRules_run ops ops'
  have hfirst : (run ops).sameRules (run ops') = true := by decide +kernel
  have hsecond : (run ops').sameRules (run ops'') = true := by decide +kernel
  exact ⟨by decide +kernel, (htfae.out 0 1).1 hfirst, (htfae.out 0 2).1 hfirst,
    hsymm ▸ hfirst, htrans ops'' hfirst hsecond, hcheck hfirst⟩

end Rulebook
