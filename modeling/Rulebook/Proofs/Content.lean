import Mathlib.Data.List.DropRight
import Rulebook.Proofs.Blocks

/-!
# The content of a text

The content of a text is its lines, trimmed, without the blank ones : what a reader takes in
(`Line.ofText_eq_map_content`). No line holds a character that breaks lines
(`unbroken_of_mem_lines`). A line feed keeps what stands before it and what comes after it on
lines of their own, whatever break, or none, stands before it (`lines_append_newline`), so that
the content of texts joined by line feeds is that of the texts one after another
(`content_joinWith`). It is the same with breaks of the other kinds, also where a break after
them makes one of two (`content_append_break`). To be trimmed is to have no blank at either end
(`trimmed_iff`).
-/

namespace Rulebook.Text

/-! ## Trimming -/

theorem trimEnd_eq_rdropWhile (s : Text) : trimEnd s = s.rdropWhile isBlank := rfl

theorem trimStart_suffix (s : Text) : trimStart s <:+ s := List.dropWhile_suffix isBlank

theorem exists_trimEnd_append (s : Text) : ∃ rest, trimEnd s ++ rest = s :=
  List.rdropWhile_prefix isBlank s

theorem mem_of_mem_trim {c : Char} {s : Text} (h : c ∈ trim s) : c ∈ s := by
  obtain ⟨rest, hrest⟩ := exists_trimEnd_append (trimStart s)
  have hc : c ∈ trimStart s := by
    rw [← hrest]
    exact List.mem_append_left rest h
  exact (trimStart_suffix s).subset hc

/-- Blanks are taken off the end up to the last character that is none. -/
theorem trimEnd_append {c : Char} (h : isBlank c = false) (s t : Text) :
    trimEnd (s ++ c :: t) = s ++ c :: trimEnd t := by
  simp only [trimEnd_eq_rdropWhile]
  induction t using List.reverseRecOn with
  | nil => rw [List.rdropWhile_concat_neg _ _ _ (by simp [h]), List.rdropWhile_nil]
  | append_singleton t d ih =>
    rw [← List.cons_append, ← List.append_assoc]
    by_cases hd : isBlank d = true
    · rw [List.rdropWhile_concat_pos _ _ _ hd, List.rdropWhile_concat_pos _ _ _ hd, ih]
    · rw [List.rdropWhile_concat_neg _ _ _ hd, List.rdropWhile_concat_neg _ _ _ hd]
      simp

theorem trimEnd_append_of_isBlank {blanks : Text} (h : ∀ c ∈ blanks, isBlank c = true)
    (s : Text) : trimEnd (s ++ blanks) = trimEnd s := by
  have hreverse : ∀ c ∈ blanks.reverse, isBlank c = true := fun c hc =>
    h c (List.mem_reverse.1 hc)
  rw [trimEnd, List.reverse_append, List.dropWhile_append_of_pos hreverse, ← trimEnd]

/-- The blanks at the two ends can be taken off in either order. -/
theorem trimStart_trimEnd (s : Text) : trimStart (trimEnd s) = trimEnd (trimStart s) := by
  have hs : s.takeWhile isBlank ++ trimStart s = s := List.takeWhile_append_dropWhile
  have hrun : ∀ c ∈ s.takeWhile isBlank, isBlank c = true := fun c hc => List.mem_takeWhile_imp hc
  cases h : trimStart s with
  | nil =>
    rw [h, List.append_nil] at hs
    have hend : trimEnd s = [] := List.rdropWhile_eq_nil_iff.2 (by rwa [hs] at hrun)
    rw [hend]
    rfl
  | cons c rest =>
    have hc : isBlank c = false := isBlank_head_trimStart s c (by rw [h]; rfl)
    have hend : trimEnd s = s.takeWhile isBlank ++ c :: trimEnd rest := by
      rw [h] at hs
      conv_lhs => rw [← hs]
      exact trimEnd_append hc _ rest
    have hrest : trimEnd (c :: rest) = c :: trimEnd rest := trimEnd_append hc [] rest
    rw [hend, hrest, trimStart, List.dropWhile_append_of_pos hrun, List.dropWhile_cons_of_neg]
    simp [hc]

theorem trim_trimEnd (s : Text) : trim (trimEnd s) = trim s := by
  rw [trim, trimStart_trimEnd, trimEnd_trimEnd, trim]

theorem trim_trim (s : Text) : trim (trim s) = trim s := by
  rw [trim.eq_1 s, trim_trimEnd, trim, trimStart_trimStart]

theorem trim_cons_of_isBlank {c : Char} (h : isBlank c = true) (s : Text) :
    trim (c :: s) = trim s := by
  rw [trim, trimStart, List.dropWhile_cons_of_pos h, ← trimStart, trim]

/-- Blanks around a text are taken off. -/
theorem trim_append_append {front back : Text} (hfront : ∀ c ∈ front, isBlank c = true)
    (hback : ∀ c ∈ back, isBlank c = true) (s : Text) : trim (front ++ (s ++ back)) = trim s := by
  have hstart : trimStart (front ++ (s ++ back)) = trimStart (s ++ back) :=
    List.dropWhile_append_of_pos hfront
  rw [trim, hstart, ← trimStart_trimEnd, trimEnd_append_of_isBlank hback, trimStart_trimEnd, trim]

/-- What is taken off the ends of a text is blank. -/
theorem exists_eq_append_trim (s : Text) : ∃ front back, s = front ++ (trim s ++ back) ∧
    (∀ c ∈ front, isBlank c = true) ∧ ∀ c ∈ back, isBlank c = true := by
  have hstart : s.takeWhile isBlank ++ trimStart s = s := List.takeWhile_append_dropWhile
  have hend : trimEnd (trimStart s) ++ (trimStart s).rtakeWhile isBlank = trimStart s :=
    List.rdropWhile_append_rtakeWhile ..
  refine ⟨s.takeWhile isBlank, (trimStart s).rtakeWhile isBlank, ?_, ?_, ?_⟩
  · rw [trim, hend, hstart]
  · exact fun c hc => List.mem_takeWhile_imp hc
  · exact fun c hc => List.mem_rtakeWhile_imp hc

/-- A text with no blank at either end. -/
structure Trimmed (s : Text) : Prop where
  head : ∀ c ∈ s.head?, isBlank c = false
  last : ∀ c ∈ s.getLast?, isBlank c = false

theorem trimmed_trim (s : Text) : Trimmed (trim s) := by
  refine ⟨?_, fun c hc => ?_⟩
  · rw [trim, ← trimStart_trimEnd]
    exact isBlank_head_trimStart (trimEnd s)
  · obtain ⟨hne, rfl⟩ := List.mem_getLast?_eq_getLast hc
    exact Bool.not_eq_true _ ▸ List.rdropWhile_last_not isBlank (trimStart s) hne

theorem Trimmed.trim_eq {s : Text} (h : Trimmed s) : trim s = s := by
  rw [trim, trimStart_eq_self_iff.2 h.head, trimEnd_eq_rdropWhile, List.rdropWhile_eq_self_iff]
  exact fun hne => by simp [h.last _ (List.getLast?_eq_some_getLast hne)]

theorem trimmed_iff {s : Text} : Trimmed s ↔ trim s = s :=
  ⟨Trimmed.trim_eq, fun h => h ▸ trimmed_trim s⟩

instance (s : Text) : Decidable (Trimmed s) := decidable_of_iff _ trimmed_iff.symm

/-! ## Lines -/

/-- A text without a character that breaks lines. -/
def Unbroken (s : Text) : Prop := ∀ c ∈ s, c ≠ '\r' ∧ c ≠ '\n'

instance (s : Text) : Decidable (Unbroken s) :=
  List.decidableBAll (fun c => c ≠ '\r' ∧ c ≠ '\n') s

theorem Unbroken.of_subset {s t : Text} (h : Unbroken t) (hst : s ⊆ t) : Unbroken s :=
  fun c hc => h c (hst hc)

theorem lines_cons {c : Char} (hr : c ≠ '\r') (hn : c ≠ '\n') (s : Text) :
    lines (c :: s) = extendFirst c (lines s) :=
  lines.eq_5 c s (fun _ h => absurd h hr) hr hn

theorem lines_eq_nil_iff {s : Text} : lines s = [] ↔ s = [] := by
  fun_cases lines s with
  | case1 => simp
  | case2 | case3 | case4 => simp
  | case5 c s => cases lines s <;> simp [extendFirst]

theorem extendFirst_append (c : Char) {first : List Text} (h : first ≠ []) (rest : List Text) :
    extendFirst c (first ++ rest) = extendFirst c first ++ rest := by
  cases first with
  | nil => exact absurd rfl h
  | cons line first => rfl

theorem unbroken_of_mem_extendFirst {c : Char} (hc : c ≠ '\r' ∧ c ≠ '\n') {ls : List Text}
    (h : ∀ line ∈ ls, Unbroken line) : ∀ line ∈ extendFirst c ls, Unbroken line := by
  cases ls with
  | nil => simpa [extendFirst, Unbroken] using hc
  | cons first rest =>
    obtain ⟨hfirst, hrest⟩ := List.forall_mem_cons.1 h
    exact List.forall_mem_cons.2 ⟨List.forall_mem_cons.2 ⟨hc, hfirst⟩, hrest⟩

/-- No line holds a character that breaks lines. -/
theorem unbroken_of_mem_lines (s : Text) : ∀ line ∈ lines s, Unbroken line := by
  fun_induction lines s with
  | case1 => simp
  | case2 s ih => simpa [Unbroken] using ih
  | case3 s _ ih => simpa [Unbroken] using ih
  | case4 s ih => simpa [Unbroken] using ih
  | case5 c s _ hr hn ih => exact unbroken_of_mem_extendFirst ⟨hr, hn⟩ ih

/-- A text without a break is one line, ended by the line feed after it. -/
theorem lines_of_unbroken {line : Text} (h : Unbroken line) (rest : Text) :
    lines (line ++ '\n' :: rest) = line :: lines rest := by
  induction line with
  | nil => rfl
  | cons c line ih =>
    obtain ⟨⟨hr, hn⟩, hline⟩ := List.forall_mem_cons.1 h
    rw [List.cons_append, lines_cons hr hn, ih hline]
    rfl

/-- A line feed ends the line before it. If there is none, because the text before is empty or
ends with a break already, it makes a line that is empty, unless it is the second half of a
break. -/
theorem lines_append_newline (s t : Text) :
    lines (s ++ '\n' :: t) = lines s ++ lines t ∨
      lines (s ++ '\n' :: t) = lines s ++ [] :: lines t := by
  fun_induction lines s with
  | case1 => exact Or.inr rfl
  | case2 s ih => simpa [lines] using ih
  | case3 s hcrlf ih =>
    cases s with
    | nil => exact Or.inl rfl
    | cons c s =>
      have hc : c ≠ '\n' := by
        rintro rfl
        exact hcrlf s rfl
      simpa [lines, hc] using ih
  | case4 s ih => simpa [lines] using ih
  | case5 c s _ hr hn ih =>
    rw [List.cons_append, lines_cons hr hn]
    by_cases hs : lines s = []
    · obtain rfl := lines_eq_nil_iff.1 hs
      exact Or.inl rfl
    · rcases ih with ih | ih
      · exact Or.inl (by rw [ih, extendFirst_append c hs])
      · exact Or.inr (by rw [ih, extendFirst_append c hs])

/-- A carriage return is a break, together with the line feed that may come next. -/
theorem exists_lines_return (t : Text) :
    ∃ u, (t = u ∨ t = '\n' :: u) ∧ lines ('\r' :: t) = [] :: lines u := by
  cases t with
  | nil => exact ⟨[], Or.inl rfl, rfl⟩
  | cons c t =>
    by_cases hc : c = '\n'
    · subst hc
      exact ⟨t, Or.inr rfl, rfl⟩
    · exact ⟨c :: t, Or.inl rfl, lines.eq_3 _ fun u hu => hc (List.cons.inj hu).1⟩

/-- A carriage return ends the line before it, or makes a line that is empty. -/
theorem lines_append_return {t u : Text} (h : lines ('\r' :: t) = [] :: lines u) (s : Text) :
    lines (s ++ '\r' :: t) = lines s ++ lines u ∨
      lines (s ++ '\r' :: t) = lines s ++ [] :: lines u := by
  fun_induction lines s with
  | case1 => exact Or.inr h
  | case2 s ih => simpa [lines] using ih
  | case3 s hcrlf ih =>
    have hnext : ∀ u, s ++ '\r' :: t ≠ '\n' :: u := by
      intro u hu
      cases s with
      | nil => simp at hu
      | cons c s =>
        obtain ⟨rfl, -⟩ := List.cons.inj hu
        exact hcrlf s rfl
    rw [List.cons_append, lines.eq_3 _ hnext]
    simpa using ih
  | case4 s ih => simpa [lines] using ih
  | case5 c s _ hr hn ih =>
    rw [List.cons_append, lines_cons hr hn]
    by_cases hs : lines s = []
    · obtain rfl := lines_eq_nil_iff.1 hs
      exact Or.inl (by rw [List.nil_append, h]; rfl)
    · rcases ih with ih | ih
      · exact Or.inl (by rw [ih, extendFirst_append c hs])
      · exact Or.inr (by rw [ih, extendFirst_append c hs])

/-! ## Content -/

/-- The lines of a text, trimmed, without the blank ones. -/
def content (s : Text) : List Text := ((lines s).map trim).filter (· ≠ [])

/-- The content of a text is its lines, trimmed, without the empty ones. -/
theorem mem_content_iff {s shown : Text} :
    shown ∈ content s ↔ shown ≠ [] ∧ ∃ raw ∈ lines s, trim raw = shown := by
  simp [content, and_comm]

/-- A line feed keeps apart what stands before and behind it. -/
theorem content_append_newline (s t : Text) :
    content (s ++ '\n' :: t) = content s ++ content t := by
  have htrim : trim [] = [] := rfl
  rcases lines_append_newline s t with h | h
  · simp [content, h]
  · simp [content, h, htrim]

theorem content_append_return (s t : Text) :
    content (s ++ '\r' :: t) = content s ++ content t := by
  have htrim : trim [] = [] := rfl
  obtain ⟨u, ht, hu⟩ := exists_lines_return t
  have hcontent : content t = content u := by
    rcases ht with rfl | rfl
    · rfl
    · exact content_append_newline [] u
  rw [hcontent]
  rcases lines_append_return hu s with h | h
  · simp [content, h]
  · simp [content, h, htrim]

/-- What ends a line. -/
def breaks : List Text := [['\n'], ['\r'], ['\r', '\n']]

/-- A break keeps apart what stands before and after it, whichever it is. -/
theorem content_append_break {b : Text} (h : b ∈ breaks) (s t : Text) :
    content (s ++ (b ++ t)) = content s ++ content t := by
  simp only [breaks, List.mem_cons, List.not_mem_nil, or_false] at h
  rcases h with rfl | rfl | rfl
  · exact content_append_newline s t
  · exact content_append_return s t
  · exact (content_append_return s ('\n' :: t)).trans
      (congrArg (content s ++ ·) (content_append_newline [] t))

/-- A text without a break is one line, which counts unless it is blank. -/
theorem content_of_unbroken {s : Text} (h : Unbroken s) :
    content s = [trim s].filter (· ≠ []) := by
  have hline := content_append_newline s []
  rwa [content, lines_of_unbroken h, show content [] = [] from rfl, List.append_nil,
    eq_comm] at hline

/-- Texts joined by line feeds say one after another what each of them says. -/
theorem content_joinWith : ∀ texts : List Text,
    content (joinWith ['\n'] texts) = texts.flatMap content
  | [] => rfl
  | [text] => by simp [joinWith]
  | text :: next :: texts => by
    have hjoin : joinWith ['\n'] (text :: next :: texts) =
        text ++ '\n' :: joinWith ['\n'] (next :: texts) := by simp [joinWith]
    rw [hjoin, content_append_newline, content_joinWith (next :: texts), ← List.flatMap_cons]

end Rulebook.Text

namespace Rulebook

open Text

theorem Line.ofText_eq_map_content (text : Text) :
    Line.ofText text = (content text).map Line.classify := rfl

end Rulebook
