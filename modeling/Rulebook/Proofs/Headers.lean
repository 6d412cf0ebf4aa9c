import Rulebook.Proofs.Resumption

/-!
# Headers

A line is a header if and only if it is a name in angle brackets, blanks, the sign `::=` and a
body, with no line feed behind the blanks that the body starts with
(`header?_eq_some_iff`). No token starts with the sign, so a text that is accepted as a definition
is never a header (`classify_of_accepts`). What a line says is part of the line : a name and a text
hold no character that breaks lines if the line holds none (`fits_classify`), and neither do the
name and the definition of a rule that is made of such lines (`fits_of_mem_blockRules`).
-/

namespace Rulebook

open Text

namespace Line

/-! ## The parts of a header -/

theorem header?_eq_some_iff {line name body : Text} :
    header? line = some (name, body) ↔
      name ≠ [] ∧ '>' ∉ name ∧ '\n' ∉ trimStart body ∧
        ∃ gap, (∀ c ∈ gap, isBlank c = true) ∧
          line = '<' :: (name ++ '>' :: (gap ++ (definedAs ++ body))) := by
  refine ⟨fun h => ?_, ?_⟩
  · unfold header? at h
    split at h
    · next s =>
      simp only [Option.bind_eq_bind, Option.bind_eq_some_iff, Prod.exists,
        Option.ite_none_right_eq_some, Option.some.injEq, Prod.mk.injEq] at h
      obtain ⟨name', afterName, hcut, body', hafter, ⟨hname, hbody⟩, rfl, rfl⟩ := h
      obtain ⟨rfl, hclosing⟩ := cutAt?_eq_some_iff.1 hcut
      have hgap : afterName.takeWhile isBlank ++ (definedAs ++ body') = afterName := by
        rw [← after?_eq_some_iff.1 hafter]
        exact List.takeWhile_append_dropWhile
      refine ⟨hname, hclosing, hbody, afterName.takeWhile isBlank, fun c hc => ?_, ?_⟩
      · exact List.mem_takeWhile_imp hc
      · rw [hgap]
    · simp at h
  · rintro ⟨hname, hclosing, hbody, gap, hgap, rfl⟩
    have hcut : cutAt? '>' (name ++ '>' :: (gap ++ (definedAs ++ body))) =
        some (name, gap ++ (definedAs ++ body)) := cutAt?_eq_some_iff.2 ⟨rfl, hclosing⟩
    have hsign : ∀ c ∈ (definedAs ++ body).head?, isBlank c = false := by
      intro c hc
      obtain rfl : ':' = c := by simpa [definedAs] using hc
      decide
    have htrim : trimStart (gap ++ (definedAs ++ body)) = definedAs ++ body :=
      (Token.takeWhile_dropWhile_append hgap hsign).2
    have hafter : after? definedAs (definedAs ++ body) = some body := after?_eq_some_iff.2 rfl
    simp [header?, hcut, htrim, hafter, hname, hbody]

/-- The definition of a header is what stands behind the sign, trimmed. -/
theorem classify_eq_header_iff {line name definition : Text} :
    classify line = .header name definition ↔
      ∃ body, header? line = some (name, body) ∧ trim body = definition := by
  unfold classify
  cases h : header? line with
  | none => simp
  | some parts => cases parts; simp

/-! ## Headers and tokens -/

/-- As a definition, a header is read up to its sign, where no token starts. -/
theorem unread_of_header? {line name body : Text} (h : header? line = some (name, body)) :
    Token.unread line = definedAs ++ body := by
  obtain ⟨hname, hclosing, -, gap, hgap, rfl⟩ := header?_eq_some_iff.1 h
  have hsign : Token.unread (definedAs ++ body) = definedAs ++ body := by
    have hnext : Token.next? (definedAs ++ body) = none := rfl
    rw [Token.unread_eq, Token.scan_of_next?_none hnext]
  have hreference : Token.Shape .nonterminal ('<' :: (name ++ ['>'])) :=
    ⟨name, hname, rfl, hclosing⟩
  have hfront : Token.Accepts ('<' :: (name ++ ['>']) ++ gap) :=
    hreference.accepts.append (Token.accepts_of_isBlank hgap)
  have hline : '<' :: (name ++ '>' :: (gap ++ (definedAs ++ body))) =
      '<' :: (name ++ ['>']) ++ gap ++ (definedAs ++ body) := by simp
  rw [hline, Token.unread_append_of_accepts hfront, hsign]

/-- No text that is accepted as a definition is a header. -/
theorem classify_of_accepts {line : Text} (h : Token.Accepts line) :
    classify line = .continuation line := by
  have hnone : header? line = none := by
    rw [Option.eq_none_iff_forall_ne_some]
    rintro ⟨name, body⟩ hheader
    have hunread := unread_of_header? hheader
    rw [Token.accepts_iff_unread_eq_nil.1 h] at hunread
    simp [definedAs] at hunread
  rw [classify, hnone]

/-! ## What lines are made of -/

/-- What a line without breaks can say : a name that stands in angle brackets, and texts
without breaks. -/
def Fits : Line → Prop
  | header name definition =>
    name ≠ [] ∧ '>' ∉ name ∧ Unbroken name ∧ Unbroken definition
  | continuation text => Unbroken text

theorem fits_classify {line : Text} (h : Unbroken line) : (classify line).Fits := by
  cases hclass : classify line with
  | continuation shown =>
    rw [eq_of_classify_eq_continuation hclass]
    exact h
  | header name definition =>
    obtain ⟨body, hheader, rfl⟩ := classify_eq_header_iff.1 hclass
    obtain ⟨hname, hclosing, -, gap, -, rfl⟩ := header?_eq_some_iff.1 hheader
    refine ⟨hname, hclosing, h.of_subset ?_, h.of_subset ?_⟩
    · intro c hc
      simp [hc]
    · intro c hc
      simp [mem_of_mem_trim hc]

/-- The lines of a text hold no line breaks, and their names can stand in angle brackets. -/
theorem fits_of_mem_ofText {text : Text} {line : Line} (h : line ∈ ofText text) : line.Fits := by
  rw [ofText_eq_map_content] at h
  obtain ⟨shown, hshown, rfl⟩ := List.mem_map.1 h
  obtain ⟨-, raw, hraw, rfl⟩ := mem_content_iff.1 hshown
  refine fits_classify ((unbroken_of_mem_lines text raw hraw).of_subset ?_)
  exact fun c hc => mem_of_mem_trim hc

end Line

/-! ## What rules are made of -/

theorem lines_subset_of_mem_blocks {lines : List Line} {b : Block} (h : b ∈ blocks lines) :
    b.lines ⊆ lines := by
  intro line hline
  rw [← leading_append_blocks lines]
  exact List.mem_append_right _ (List.mem_flatMap.2 ⟨b, h, hline⟩)

/-- A rule that lines without breaks make up. -/
theorem fits_of_mem_blockRules {lines : List Line} (h : ∀ line ∈ lines, line.Fits) {r : Rule}
    (hr : r ∈ blockRules lines) :
    r.name ≠ [] ∧ '>' ∉ r.name ∧ Unbroken r.name ∧ Unbroken r.definition := by
  obtain ⟨b, hb, rfl⟩ := List.mem_map.1 hr
  have hlines : ∀ line ∈ b.lines, line.Fits := fun line hline =>
    h line (lines_subset_of_mem_blocks hb hline)
  obtain ⟨⟨hname, hclosing, hbroken, hdefinition⟩, hcontinuations⟩ :=
    List.forall_mem_cons.1 hlines
  have htexts : ∀ text ∈ b.continuations, Unbroken text := fun text htext =>
    hcontinuations _ (List.mem_map_of_mem htext)
  refine ⟨hname, hclosing, hbroken, fun c hc => ?_⟩
  rcases List.mem_append.1 hc with hc | hc
  · exact hdefinition c hc
  · obtain ⟨text, htext, hc⟩ := List.mem_flatMap.1 hc
    rcases List.mem_cons.1 hc with rfl | hc
    · decide
    · exact htexts text htext c hc

end Rulebook
