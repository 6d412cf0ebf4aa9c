import Rulebook.Proofs.Headers

/-!
# The pattern of a header

A pattern is a row of characters and of runs of characters of a class, and some of the runs are
groups. It can match a text in several ways, which differ in how far its runs go : `Pattern.ways`
are those in which it matches all of a text, a longer run before a shorter one, and
`Pattern.first?` is the one that counts. For the pattern of a header it makes no difference
which way is taken (`Line.classify_of_mem_ways`), and a line is what the first one says
(`Line.classify_eq_match`).

So a line is a header if and only if it is made up of certain parts, which are the only ones
(`Line.classify_iff_parts`). The same parts can be read as tokens up to the sign, where no
token starts : a header is no definition, and the tokenizer stops at its sign
(`Line.tokenize_header`).
-/

namespace Rulebook

open Text

/-! ## Patterns -/

/-- A part of a pattern : a text, or a run of characters of a class, which is skipped or else is a
group and has some least length. -/
inductive Pattern.Part where
  | literal (text : Text)
  | skip (member : Char → Bool)
  | group (least : Nat) (member : Char → Bool)

/-- What a text is matched with, from its first character to its last. -/
abbrev Pattern := List Pattern.Part

namespace Pattern

/-- The cuts of a text behind a run of characters of the class, the longest run first. -/
def cuts (member : Char → Bool) : Text → List (Text × Text)
  | [] => [([], [])]
  | c :: s =>
    (if member c then (cuts member s).map fun (run, rest) => (c :: run, rest) else []) ++
      [([], c :: s)]

/-- The groups of each way in which the pattern matches all of a text, in the order in which they
are tried. -/
def ways : Pattern → Text → List (List Text)
  | [], s => if s = [] then [[]] else []
  | .literal text :: p, s =>
    match after? text s with
    | some rest => ways p rest
    | none => []
  | .skip member :: p, s => (cuts member s).flatMap fun (_, rest) => ways p rest
  | .group least member :: p, s =>
    (cuts member s).flatMap fun (run, rest) =>
      if least ≤ run.length then (ways p rest).map (run :: ·) else []

/-- The groups of the first way in which the pattern matches all of a text. -/
def first? (p : Pattern) (s : Text) : Option (List Text) := (p.ways s).head?

/-- A cut is a run of members at the front, of any length. -/
theorem mem_cuts_iff {member : Char → Bool} {s run rest : Text} :
    (run, rest) ∈ cuts member s ↔ s = run ++ rest ∧ ∀ c ∈ run, member c = true := by
  induction s generalizing run with
  | nil =>
    simp only [cuts, List.mem_singleton, Prod.mk.injEq, List.nil_eq, List.append_eq_nil_iff]
    refine ⟨?_, And.left⟩
    rintro ⟨rfl, rfl⟩
    simp
  | cons c s ih =>
    cases run with
    | nil => by_cases hc : member c = true <;> simp [cuts, hc, eq_comm (a := rest)]
    | cons d run =>
      have hcons : (d :: run, rest) ∈ cuts member (c :: s) ↔
          member c = true ∧ d = c ∧ (run, rest) ∈ cuts member s := by
        by_cases hc : member c = true <;> simp [cuts, hc, and_comm, eq_comm (a := d)]
      rw [hcons, ih, List.cons_append, List.cons.injEq, List.forall_mem_cons]
      refine ⟨?_, ?_⟩
      · rintro ⟨hc, rfl, rfl, hrun⟩
        exact ⟨⟨rfl, rfl⟩, hc, hrun⟩
      · rintro ⟨⟨rfl, rfl⟩, hc, hrun⟩
        exact ⟨hc, rfl, rfl, hrun⟩

variable {p : Pattern} {s : Text} {groups : List Text}

theorem mem_ways_nil_iff : groups ∈ ways [] s ↔ s = [] ∧ groups = [] := by
  by_cases hs : s = [] <;> simp [ways, hs]

theorem mem_ways_literal_iff {text : Text} :
    groups ∈ ways (.literal text :: p) s ↔ ∃ rest, s = text ++ rest ∧ groups ∈ ways p rest := by
  simp only [← after?_eq_some_iff, ways]
  cases after? text s <;> simp

theorem mem_ways_skip_iff {member : Char → Bool} :
    groups ∈ ways (.skip member :: p) s ↔ ∃ run rest, s = run ++ rest ∧
      (∀ c ∈ run, member c = true) ∧ groups ∈ ways p rest := by
  simp only [ways, List.mem_flatMap, Prod.exists, mem_cuts_iff, and_assoc]

/-- A group is a run of members that is long enough. -/
theorem mem_ways_group_iff {least : Nat} {member : Char → Bool} :
    groups ∈ ways (.group least member :: p) s ↔ ∃ run rest later, s = run ++ rest ∧
      (∀ c ∈ run, member c = true) ∧ least ≤ run.length ∧ later ∈ ways p rest ∧
      groups = run :: later := by
  simp only [ways, List.mem_flatMap, Prod.exists, mem_cuts_iff, List.mem_ite_nil_right,
    List.mem_map, eq_comm (b := groups)]
  refine exists_congr fun run => exists_congr fun rest => ⟨?_, ?_⟩
  · rintro ⟨⟨hs, hrun⟩, hleast, later, hlater, hgroups⟩
    exact ⟨later, hs, hrun, hleast, hlater, hgroups⟩
  · rintro ⟨later, hs, hrun, hleast, hlater, hgroups⟩
    exact ⟨⟨hs, hrun⟩, hleast, later, hlater, hgroups⟩

end Pattern

namespace Line

/-! ## The pattern of a header -/

/-- A name in angle brackets, blanks, the sign, blanks, and the definition up to the end. The name
and the definition are groups; the one holds no closing bracket and the other no line feed. -/
def pattern : Pattern :=
  [.literal ['<'], .group 1 (· != '>'), .literal ['>'], .skip isBlank, .literal definedAs,
    .skip isBlank, .group 0 (· != '\n')]

theorem mem_ways_pattern_iff {line : Text} {groups : List Text} :
    groups ∈ pattern.ways line ↔ ∃ name gap lead raw, groups = [name, raw] ∧
      line = '<' :: (name ++ '>' :: (gap ++ (definedAs ++ (lead ++ raw)))) ∧
      name ≠ [] ∧ '>' ∉ name ∧ (∀ c ∈ gap, isBlank c = true) ∧ (∀ c ∈ lead, isBlank c = true) ∧
      '\n' ∉ raw := by
  have hnot (mark : Char) (s : Text) : (∀ c ∈ s, (c != mark) = true) ↔ mark ∉ s := by
    simp only [bne_iff_ne]
    exact ⟨fun h hmem => h mark hmem rfl, fun h c hc heq => h (heq ▸ hc)⟩
  simp only [pattern, Pattern.mem_ways_literal_iff, Pattern.mem_ways_group_iff,
    Pattern.mem_ways_skip_iff, Pattern.mem_ways_nil_iff, hnot]
  refine ⟨?_, ?_⟩
  · rintro ⟨_, rfl, name, _, _, rfl, hname, hlength, ⟨_, rfl, gap, _, rfl, hgap, _, rfl, lead, _,
      rfl, hlead, raw, _, _, rfl, hraw, -, ⟨rfl, rfl⟩, rfl⟩, rfl⟩
    exact ⟨name, gap, lead, raw, rfl, by simp, List.length_pos_iff.1 hlength, hname, hgap, hlead,
      hraw⟩
  · rintro ⟨name, gap, lead, raw, rfl, rfl, hne, hname, hgap, hlead, hraw⟩
    have hdefinition : lead ++ raw = lead ++ (raw ++ []) := by simp
    exact ⟨_, rfl, name, _, _, rfl, hname, List.length_pos_iff.2 hne, ⟨_, rfl, gap, _, rfl, hgap,
      _, rfl, lead, _, hdefinition, hlead, raw, [], [], rfl, hraw, Nat.zero_le _, ⟨rfl, rfl⟩,
      rfl⟩, rfl⟩

/-- In whichever way the pattern matches a line, its groups are the name and, but for blanks in
front, the body of the header. -/
theorem header?_of_mem_ways {line : Text} {groups : List Text} (h : groups ∈ pattern.ways line) :
    ∃ name body raw, groups = [name, raw] ∧ header? line = some (name, body) ∧
      trim raw = trim body := by
  obtain ⟨name, gap, lead, raw, rfl, hline, hne, hname, hgap, hlead, hraw⟩ :=
    mem_ways_pattern_iff.1 h
  have htrim : trimStart (lead ++ raw) = trimStart raw := List.dropWhile_append_of_pos hlead
  refine ⟨name, lead ++ raw, raw, rfl, ?_, by rw [trim, trim, htrim]⟩
  refine header?_eq_some_iff.2 ⟨hne, hname, fun hfeed => hraw ?_, gap, hgap, hline⟩
  rw [htrim] at hfeed
  exact (trimStart_suffix raw).subset hfeed

theorem mem_ways_of_header? {line name body : Text} (h : header? line = some (name, body)) :
    [name, trimStart body] ∈ pattern.ways line := by
  obtain ⟨hne, hname, hbody, gap, hgap, hline⟩ := header?_eq_some_iff.1 h
  have hsplit : body.takeWhile isBlank ++ trimStart body = body :=
    List.takeWhile_append_dropWhile
  refine mem_ways_pattern_iff.2 ⟨name, gap, body.takeWhile isBlank, trimStart body, rfl, ?_, hne,
    hname, hgap, fun c hc => List.mem_takeWhile_imp hc, hbody⟩
  rw [hsplit, hline]

/-- In whichever way the pattern matches a line, the line is a header by its groups. -/
theorem classify_of_mem_ways {line : Text} {groups : List Text} (h : groups ∈ pattern.ways line) :
    ∃ name raw, groups = [name, raw] ∧ classify line = .header name (trim raw) := by
  obtain ⟨name, body, raw, rfl, hheader, htrim⟩ := header?_of_mem_ways h
  exact ⟨name, raw, rfl, classify_eq_header_iff.2 ⟨body, hheader, htrim.symm⟩⟩

theorem classify_of_ways_eq_nil {line : Text} (h : pattern.ways line = []) :
    classify line = .continuation line := by
  unfold classify
  cases hheader : header? line with
  | none => rfl
  | some parts =>
    have hmem := mem_ways_of_header? hheader
    rw [h] at hmem
    exact absurd hmem List.not_mem_nil

/-- A line is what the first way says in which the pattern matches it. -/
theorem classify_eq_match (line : Text) :
    classify line = match pattern.first? line with
      | some [name, raw] => .header name (trim raw)
      | _ => .continuation line := by
  cases h : pattern.ways line with
  | nil => rw [classify_of_ways_eq_nil h, Pattern.first?, h, List.head?_nil]
  | cons groups ways =>
    obtain ⟨name, raw, rfl, hclass⟩ := classify_of_mem_ways (h ▸ List.mem_cons_self)
    rw [hclass, Pattern.first?, h, List.head?_cons]

/-! ## The parts of a line -/

/-- The line is a name in angle brackets, blanks, the sign and a body. The name is not empty and
holds no closing bracket, and there is no line feed in the body but among the blanks it starts
with. -/
structure HasParts (line name gap body : Text) : Prop where
  eq : line = '<' :: (name ++ '>' :: (gap ++ (definedAs ++ body)))
  name_ne_nil : name ≠ []
  closing_not_mem : '>' ∉ name
  isBlank_gap : ∀ c ∈ gap, isBlank c = true
  feed_not_mem : '\n' ∉ trimStart body

/-- A line is read as a header if it has the parts of one. -/
theorem header?_eq_some_iff_hasParts {line name body : Text} :
    header? line = some (name, body) ↔ ∃ gap, HasParts line name gap body := by
  rw [header?_eq_some_iff]
  refine ⟨?_, ?_⟩
  · rintro ⟨hne, hname, hbody, gap, hgap, hline⟩
    exact ⟨gap, hline, hne, hname, hgap, hbody⟩
  · rintro ⟨gap, h⟩
    exact ⟨h.name_ne_nil, h.closing_not_mem, h.feed_not_mem, gap, h.isBlank_gap, h.eq⟩

/-- A line is a header if it has the parts of one, and the definition is what is left, trimmed. -/
theorem classify_eq_header_iff_hasParts {line name definition : Text} :
    classify line = .header name definition ↔
      ∃ gap body, HasParts line name gap body ∧ trim body = definition := by
  simp only [classify_eq_header_iff, header?_eq_some_iff_hasParts]
  refine ⟨?_, ?_⟩
  · rintro ⟨body, ⟨gap, hparts⟩, hdefinition⟩
    exact ⟨gap, body, hparts, hdefinition⟩
  · rintro ⟨gap, body, hparts, hdefinition⟩
    exact ⟨body, ⟨gap, hparts⟩, hdefinition⟩

namespace HasParts

variable {line name gap body name' gap' body' : Text}

theorem classify_eq (h : HasParts line name gap body) :
    classify line = .header name (trim body) :=
  classify_eq_header_iff_hasParts.2 ⟨gap, body, h, rfl⟩

/-- A line has the parts of a header in one way only. -/
theorem unique (h : HasParts line name gap body) (h' : HasParts line name' gap' body') :
    name' = name ∧ gap' = gap ∧ body' = body := by
  have heq := header?_eq_some_iff_hasParts.2 ⟨gap, h⟩
  rw [header?_eq_some_iff_hasParts.2 ⟨gap', h'⟩] at heq
  obtain ⟨rfl, rfl⟩ := Prod.mk.inj (Option.some.inj heq)
  have hline := h'.eq.symm.trans h.eq
  simpa using hline

/-- As a definition, the parts are read up to the sign. -/
theorem tokenize_eq (h : HasParts line name gap body) (rule : Text) :
    Grammar.tokenize rule line = .error (.invalidSyntax rule
      ('<' :: (name ++ '>' :: gap)).length (definedAs ++ body)) := by
  have hunread := unread_of_header? (header?_eq_some_iff_hasParts.2 ⟨gap, h⟩)
  have hlength := Token.consumed_add_length_unread line
  have hline : line = '<' :: (name ++ '>' :: gap) ++ (definedAs ++ body) := by simp [h.eq]
  rw [hunread] at hlength
  conv at hlength => rhs; rw [hline, List.length_append]
  refine Grammar.tokenize_eq_error_iff.2 ⟨by simp [hunread, definedAs], ?_⟩
  rw [hunread, Nat.add_right_cancel hlength]

end HasParts

/-- A line is classified by the first way in which the pattern of a header matches it. It is a
header if and only if it is made up of the parts of one. They are then the only such parts, and
the header has their name as it is and their body trimmed. Every other line is a continuation as
it is. -/
theorem classify_iff_parts (line : Text) :
    (classify line = match pattern.first? line with
      | some [name, raw] => .header name (trim raw)
      | _ => .continuation line) ∧
    ((∃ name definition, classify line = .header name definition) ↔
      ∃ name gap body, HasParts line name gap body) ∧
    (∀ name gap body, HasParts line name gap body →
      classify line = .header name (trim body) ∧
      ∀ name' gap' body', HasParts line name' gap' body' →
        name' = name ∧ gap' = gap ∧ body' = body) ∧
    ((¬∃ name gap body, HasParts line name gap body) → classify line = .continuation line) := by
  refine ⟨classify_eq_match line, ⟨?_, ?_⟩, fun name gap body h => ?_, fun h => ?_⟩
  · rintro ⟨name, definition, hclass⟩
    obtain ⟨gap, body, hparts, -⟩ := classify_eq_header_iff_hasParts.1 hclass
    exact ⟨name, gap, body, hparts⟩
  · rintro ⟨name, gap, body, h⟩
    exact ⟨name, trim body, h.classify_eq⟩
  · exact ⟨h.classify_eq, fun name' gap' body' h' => h.unique h'⟩
  · cases hclass : classify line with
    | continuation text => rw [eq_of_classify_eq_continuation hclass]
    | header name definition =>
      obtain ⟨gap, body, hparts, -⟩ := classify_eq_header_iff_hasParts.1 hclass
      exact absurd ⟨name, gap, body, hparts⟩ h

/-- A line feed can stand in a name and among the blanks in front of a definition, but not even
at the end of the definition. -/
theorem classify_iff_parts_around_feeds :
    let line := "<a\n::=> \u0085::= \n'x'\r".toList
    let ended := "<a> ::= 'x'\n".toList
    HasParts line "a\n::=".toList " \u0085".toList " \n'x'\r".toList ∧
      pattern.first? line = some ["a\n::=".toList, "'x'\r".toList] ∧
      classify line = .header "a\n::=".toList "'x'".toList ∧
      (∀ name gap body, HasParts line name gap body →
        name = "a\n::=".toList ∧ gap = " \u0085".toList ∧ body = " \n'x'\r".toList) ∧
      (¬∃ name gap body, HasParts ended name gap body) ∧ classify ended = .continuation ended := by
  intro line ended
  have hparts : HasParts line "a\n::=".toList " \u0085".toList " \n'x'\r".toList :=
    ⟨by decide, by decide, by decide, List.all_eq_true.1 (by decide), by decide⟩
  have hnone : ¬∃ name gap body, HasParts ended name gap body := by
    rintro ⟨name, gap, body, h⟩
    have hheader := header?_eq_some_iff_hasParts.2 ⟨gap, h⟩
    rw [show header? ended = none from by decide] at hheader
    exact absurd hheader (by simp)
  obtain ⟨-, -, hheader, -⟩ := classify_iff_parts line
  obtain ⟨hclass, hunique⟩ := hheader _ _ _ hparts
  exact ⟨hparts, by decide, hclass, hunique, hnone, (classify_iff_parts ended).2.2.2 hnone⟩

/-! ## Headers as definitions -/

/-- As a definition, a header is rejected at the sign behind its name and the blanks. What is
accepted as a definition is no header. -/
theorem tokenize_header (rule line : Text) :
    (∀ name definition, classify line = .header name definition →
      ∃ gap body, HasParts line name gap body ∧ trim body = definition ∧
        Grammar.tokenize rule line = .error (.invalidSyntax rule
          ('<' :: (name ++ '>' :: gap)).length (definedAs ++ body))) ∧
    ((∃ placed, Grammar.tokenize rule line = .ok placed) → classify line = .continuation line) := by
  refine ⟨fun name definition hclass => ?_, fun haccepts => ?_⟩
  · obtain ⟨gap, body, hparts, hdefinition⟩ := classify_eq_header_iff_hasParts.1 hclass
    exact ⟨gap, body, hparts, hdefinition, hparts.tokenize_eq rule⟩
  · exact classify_of_accepts (Grammar.exists_tokenize_eq_ok_iff.1 haccepts)

/-- Signs in quotes and in names are not the sign of a header. -/
theorem tokenize_header_of_signs :
    let line := "<'::=' ü>\u3000::= <b> ::= |".toList
    let accepted := "<a ::= > '<b> ::='|\"::=\"".toList
    classify line = .header "'::=' ü".toList "<b> ::= |".toList ∧
      Grammar.tokenize "a".toList line =
        .error (.invalidSyntax "a".toList 10 "::= <b> ::= |".toList) ∧
      (∃ placed, Grammar.tokenize "a".toList accepted = .ok placed) ∧
      classify accepted = .continuation accepted := by
  intro line accepted
  have haccepted : ∃ placed, Grammar.tokenize "a".toList accepted = .ok placed := by
    refine Grammar.exists_tokenize_eq_ok_iff.2 (Token.accepts_iff.2 ⟨["<a ::= >".toList,
      " ".toList, "'<b> ::='".toList, "|".toList, "\"::=\"".toList], rfl, ?_⟩)
    simp only [List.forall_mem_cons]
    exact ⟨⟨.nonterminal, "a ::= ".toList, by decide, rfl, by decide⟩,
      ⟨.whitespace, by decide, List.forall_mem_singleton.2 (by decide)⟩,
      ⟨.singleQuoted, "<b> ::=".toList, rfl, by decide⟩, ⟨.alternation, rfl⟩,
      ⟨.doubleQuoted, "::=".toList, rfl, by decide⟩, List.forall_mem_nil _⟩
  have hparts : HasParts line "'::=' ü".toList "\u3000".toList " <b> ::= |".toList :=
    ⟨by decide, by decide, by decide, List.all_eq_true.1 (by decide), by decide⟩
  obtain ⟨hheader, -⟩ := tokenize_header "a".toList line
  obtain ⟨gap, body, h, -, herror⟩ := hheader _ _ hparts.classify_eq
  obtain ⟨-, rfl, rfl⟩ := hparts.unique h
  exact ⟨hparts.classify_eq, herror, haccepted, (tokenize_header "a".toList accepted).2 haccepted⟩

end Line

end Rulebook
