import Mathlib.Tactic.TFAE
import Rulebook.Proofs.HeaderPattern
import Rulebook.Proofs.InnerText

/-!
# References

A definition refers to a rule by its name in angle brackets. What stands between the brackets is
the inner text of the token (`Token.inner?_reference`), and a name can stand there if it is not
empty and holds no closing bracket (`Token.shape_reference_iff`). The header of a rule asks the same
of its name, so that headers and references have the same names (`tfae_header_reference`).
-/

namespace Rulebook

open Text

namespace Token

/-- The name in angle brackets. -/
def reference (name : Text) : Text := '<' :: (name ++ ['>'])

/-- The placed token of a definition is a name in angle brackets, with this inner text. -/
structure Refers (definition : Text) (p : Placed) (name : Text) : Prop where
  kind : p.kind = .nonterminal
  inner : ∃ slice, slice? definition p.start p.stop = some slice ∧
    p.kind.inner? slice = some name

/-! ## The name in a reference -/

theorem reference_injective {a b : Text} (h : reference a = reference b) : a = b :=
  List.append_cancel_right (List.cons.inj h).2

theorem inner?_reference (name : Text) : Kind.nonterminal.inner? (reference name) = some name :=
  (Kind.inner?_eq_some_iff rfl).2 ⟨'<', '>', by decide, by decide, rfl⟩

/-- A name can be referred to if it is not empty and holds no closing bracket. -/
theorem shape_reference_iff {name : Text} :
    Shape .nonterminal (reference name) ↔ name ≠ [] ∧ '>' ∉ name := by
  refine ⟨?_, fun ⟨hname, hclosing⟩ => ⟨name, hname, rfl, hclosing⟩⟩
  rintro ⟨other, hother, heq, hclosing⟩
  obtain rfl := reference_injective heq
  exact ⟨hother, hclosing⟩

/-- A reference is one token from its first byte to its last. -/
theorem tokenize_reference {name : Text} (h : Shape .nonterminal (reference name)) :
    tokenize (reference name) = .ok [⟨.nonterminal, 0, byteSize (reference name)⟩] := by
  have hsplits : Splits (reference name) [⟨.nonterminal, reference name⟩] :=
    ⟨List.forall_mem_singleton.2 h, List.append_nil _, List.isChain_singleton _⟩
  refine tokenize_eq_ok_iff.2 ⟨_, scan_eq_iff.2 hsplits, ?_⟩
  rw [place, place, Nat.zero_add]

theorem refers_reference (name : Text) :
    Refers (reference name) ⟨.nonterminal, 0, byteSize (reference name)⟩ name := by
  refine ⟨rfl, reference name, slice?_eq_some_iff.2 ⟨[], [], ?_, rfl, Nat.zero_add _⟩,
    inner?_reference name⟩
  rw [List.nil_append, List.append_nil]

/-- What a token of a definition refers to is a name that can stand in a reference. -/
theorem shape_of_refers {definition name : Text} {placed : List Placed} {p : Placed}
    (h : tokenize definition = .ok placed) (hp : p ∈ placed) (hrefers : Refers definition p name) :
    Shape .nonterminal (reference name) := by
  obtain ⟨slice, hslice, hinner⟩ := hrefers.inner
  obtain ⟨piece, hpiece, hshape⟩ := exists_shape_of_tokenize h p hp
  obtain rfl : slice = piece := Option.some.inj (hslice.symm.trans hpiece)
  rw [hrefers.kind] at hshape hinner
  obtain ⟨other, hother, rfl, hclosing⟩ := hshape
  obtain rfl : other = name := Option.some.inj ((inner?_reference other).symm.trans hinner)
  exact shape_reference_iff.2 ⟨hother, hclosing⟩

end Token

open Token Line in
/-- For every text these are the same : that it stands as a name in front of the sign of a header,
that it is the name of some header, that it makes one token in angle brackets with itself
as the inner text, that some definition refers to it, and that it is not empty and holds no closing
bracket. -/
theorem tfae_header_reference (rule name : Text) : List.TFAE [
    ∃ definition, classify (reference name ++ ' ' :: definedAs) = .header name definition,
    ∃ line definition, classify line = .header name definition,
    ∃ p, Grammar.tokenize rule (reference name) = .ok [p] ∧ Refers (reference name) p name,
    ∃ definition placed, Grammar.tokenize rule definition = .ok placed ∧
      ∃ p ∈ placed, Refers definition p name,
    name ≠ [] ∧ '>' ∉ name] := by
  tfae_have 1 → 2 := fun ⟨definition, h⟩ => ⟨_, definition, h⟩
  tfae_have 2 → 5 := by
    rintro ⟨line, definition, h⟩
    obtain ⟨gap, body, hparts, -⟩ := classify_eq_header_iff_hasParts.1 h
    exact ⟨hparts.name_ne_nil, hparts.closing_not_mem⟩
  tfae_have 5 → 1 := by
    rintro ⟨hname, hclosing⟩
    have hparts : HasParts (reference name ++ ' ' :: definedAs) name [' '] [] := by
      refine ⟨?_, hname, hclosing, List.forall_mem_singleton.2 (by decide), by decide⟩
      simp [reference]
    exact ⟨_, hparts.classify_eq⟩
  tfae_have 5 → 3 := by
    intro h
    have hplaced := Token.tokenize_reference (shape_reference_iff.2 h)
    exact ⟨_, Grammar.tokenize_eq_ok_iff.2 hplaced, refers_reference name⟩
  tfae_have 3 → 4 := fun ⟨p, hplaced, hrefers⟩ =>
    ⟨_, _, hplaced, p, List.mem_singleton_self p, hrefers⟩
  tfae_have 4 → 5 := by
    rintro ⟨definition, placed, hplaced, p, hp, hrefers⟩
    exact shape_reference_iff.1 (shape_of_refers (Grammar.tokenize_eq_ok_iff.1 hplaced) hp hrefers)
  tfae_finish

open Token Line in
/-- A name may hold a sign, a line feed, a quote and an opening bracket. With a closing bracket in
it, a header is found under the name in front of that, and no definition refers to the whole. -/
theorem tfae_header_reference_with_closing :
    let name := "::=\n'<ü".toList
    let cut := "a> ::= b".toList
    (∃ p, Grammar.tokenize "r".toList (reference name) = .ok [p] ∧
      Refers (reference name) p name) ∧
    classify (reference name ++ ' ' :: definedAs) = .header name [] ∧
    classify (reference cut ++ ' ' :: definedAs) = .header "a".toList "b> ::=".toList ∧
    ¬∃ definition placed, Grammar.tokenize "r".toList definition = .ok placed ∧
      ∃ p ∈ placed, Refers definition p cut := by
  intro name cut
  have hname := (tfae_header_reference "r".toList name).out 2 4
  have hcut := (tfae_header_reference "r".toList cut).out 3 4
  exact ⟨hname.2 ⟨by decide, by decide⟩, by decide, by decide, fun h => (hcut.1 h).2 (by decide)⟩

end Rulebook
