import Rulebook.Proofs.Runs

/-!
# The open rule of a session

In a session lines are read one after another into a grammar, and the open rule may be closed
between them. A call opens a rule, continues the rule that is open, or closes it
(`Reader.call_cases`). So the rule that is open is the one that the last header has opened, if
nothing was closed and no line has failed since then (`Reader.cursor_session_eq_some_iff`), and
it is a rule of the grammar (`Reader.mem_names_of_cursor_session`). While no rule is open, all
calls but the headers leave the grammar as it is (`Reader.session_append_of_not_opens`).
-/

namespace Rulebook

open Text

namespace Reader

/-! ## Calls -/

/-- One call of a session. -/
inductive Call where
  /-- A line is read, whatever it holds. -/
  | line (text : Text)
  /-- The open rule is closed. -/
  | reset
  deriving DecidableEq, Repr

/-- The reader after a call. -/
def call (r : Reader) : Call → Reader
  | .line text => r.after text
  | .reset => r.reset

/-- The reader after calls on a grammar, with no open rule at the start. -/
def session (g : Grammar) (calls : List Call) : Reader := calls.foldl call ⟨g, none⟩

/-- The call reads a line and does not fail. -/
def Succeeds (r : Reader) (c : Call) : Prop :=
  ∃ text r', c = .line text ∧ r.addLine text = .ok r'

/-- The call reads the header of a rule and opens the rule. -/
def Opens (name : Text) (r : Reader) (c : Call) : Prop :=
  ∃ text definition r', c = .line text ∧ Line.classify text = .header name definition ∧
    r.addLine text = .ok r'

/-- The call reads a line that opens no rule, and does not fail. -/
def Continues (r : Reader) (c : Call) : Prop := Succeeds r c ∧ ∀ name, ¬Opens name r c

theorem Opens.succeeds {name : Text} {r : Reader} {c : Call} (h : Opens name r c) :
    Succeeds r c := by
  obtain ⟨text, definition, r', rfl, -, hok⟩ := h
  exact ⟨text, r', rfl, hok⟩

theorem not_succeeds_reset (r : Reader) : ¬Succeeds r .reset := by
  rintro ⟨text, r', h, -⟩
  cases h

theorem not_succeeds_of_error {r : Reader} {text : Text} {e : Error}
    (h : r.addLine text = .error e) : ¬Succeeds r (.line text) := by
  rintro ⟨text', r', heq, hok⟩
  obtain rfl := Call.line.inj heq
  simp [h] at hok

theorem not_opens_of_continuation {r : Reader} {text shown : Text}
    (h : Line.classify text = .continuation shown) (name : Text) : ¬Opens name r (.line text) := by
  rintro ⟨text', definition, -, heq, hheader, -⟩
  obtain rfl := Call.line.inj heq
  simp [h] at hheader

/-- A line that fails leaves the grammar as it was, and no cursor. -/
theorem after_of_error {r : Reader} {text : Text} {e : Error} (h : r.addLine text = .error e) :
    r.after text = r.reset :=
  congrArg Prod.snd (readLine_of_error h)

/-- A line fails if it is a header of a name that is taken, or continues no rule of the grammar. -/
theorem addLine_eq_error_iff {r : Reader} {text : Text} {e : Error} :
    r.addLine text = .error e ↔
      (∃ name definition, Line.classify text = .header name definition ∧
        name ∈ r.grammar.names ∧ e = .duplicateRule name none) ∨
      ∃ shown, Line.classify text = .continuation shown ∧
        (∀ name, r.cursor = some name → name ∉ r.grammar.names) ∧
        e = .orphanedContent text none := by
  cases hclass : Line.classify text with
  | header name definition =>
    rw [addLine_of_header hclass]
    by_cases hname : name ∈ r.grammar.names
    · simp [Grammar.insert_of_mem hname, Except.map, hname, eq_comm]
    · simp [Grammar.insert_of_not_mem hname, Except.map, hname]
  | continuation shown =>
    cases hcursor : r.cursor with
    | none => simp [addLine_of_orphan hclass hcursor, eq_comm]
    | some name =>
      rw [addLine_of_continuation hclass hcursor, Line.eq_of_classify_eq_continuation hclass]
      by_cases hname : name ∈ r.grammar.names
      · simp [Grammar.append_of_mem hname, Except.map, hname]
      · simp [Grammar.append_of_not_mem hname, Except.map, hname, eq_comm]

/-- What a call can do : open a rule that is new, continue the rule that is open, or close it. -/
theorem call_cases (r : Reader) (c : Call) :
    (∃ name, Opens name r c ∧ (r.call c).cursor = some name ∧
      (r.call c).grammar.names = r.grammar.names ++ [name]) ∨
    (∃ name, Continues r c ∧ r.cursor = some name ∧ (r.call c).cursor = some name ∧
      (r.call c).grammar.names = r.grammar.names) ∨
    (¬Succeeds r c ∧ r.call c = r.reset) := by
  cases c with
  | reset => exact Or.inr (Or.inr ⟨not_succeeds_reset r, rfl⟩)
  | line text =>
    cases hadd : r.addLine text with
    | error e => exact Or.inr (Or.inr ⟨not_succeeds_of_error hadd, after_of_error hadd⟩)
    | ok r' =>
      have hcall : r.call (.line text) = r' := congrArg Prod.snd (readLine_of_ok hadd)
      rw [hcall]
      cases hclass : Line.classify text with
      | header name definition =>
        refine Or.inl ⟨name, ⟨text, definition, r', rfl, hclass, hadd⟩, ?_⟩
        rw [addLine_of_header hclass] at hadd
        cases hins : r.grammar.insert name definition with
        | error e => simp [hins, Except.map] at hadd
        | ok g =>
          obtain rfl : ⟨g, some name⟩ = r' := by simpa [hins, Except.map] using hadd
          exact ⟨rfl, Grammar.names_insert hins⟩
      | continuation shown =>
        have hcontinues : Continues r (.line text) :=
          ⟨⟨text, r', rfl, hadd⟩, not_opens_of_continuation hclass⟩
        cases hcursor : r.cursor with
        | none => simp [addLine_of_orphan hclass hcursor] at hadd
        | some name =>
          refine Or.inr (Or.inl ⟨name, hcontinues, rfl, ?_⟩)
          rw [addLine_of_continuation hclass hcursor] at hadd
          cases happ : r.grammar.append name shown with
          | error e => simp [happ, Except.map] at hadd
          | ok g =>
            obtain rfl : ⟨g, some name⟩ = r' := by simpa [happ, Except.map] using hadd
            exact ⟨rfl, Grammar.names_append happ⟩

/-! ## Since when -/

/-- Some call of the session was of the one kind, and all calls since then were of the other. -/
def Since (p q : Reader → Call → Prop) (g : Grammar) (calls : List Call) : Prop :=
  ∃ before c later, calls = before ++ c :: later ∧ p (session g before) c ∧
    ∀ mid d rest, later = mid ++ d :: rest → q (session g (before ++ c :: mid)) d

theorem session_concat (g : Grammar) (calls : List Call) (c : Call) :
    session g (calls ++ [c]) = (session g calls).call c := by
  rw [session, List.foldl_concat, ← session]

/-- An element of a list with one more at its end is that one or an earlier one. -/
theorem concat_eq_append_cons_iff {calls before later : List Call} {c d : Call} :
    calls ++ [c] = before ++ d :: later ↔ (calls = before ∧ c = d ∧ later = []) ∨
      ∃ init, later = init ++ [c] ∧ calls = before ++ d :: init := by
  induction later using List.reverseRecOn with
  | nil => simp [List.append_singleton_inj]
  | append_singleton init last =>
    have hsplit : calls ++ [c] = before ++ d :: (init ++ [last]) ↔
        calls = before ++ d :: init ∧ c = last := by
      rw [← List.cons_append, ← List.append_assoc, List.append_singleton_inj]
    simp only [hsplit, List.append_singleton_inj]
    grind

theorem not_since_nil (p q : Reader → Call → Prop) (g : Grammar) : ¬Since p q g [] := by
  rintro ⟨before, c, later, h, -⟩
  simp at h

/-- Something has held since a call if it was the last one, or has held before and holds for the
last one. -/
theorem since_concat {p q : Reader → Call → Prop} {g : Grammar} {calls : List Call} {c : Call} :
    Since p q g (calls ++ [c]) ↔
      p (session g calls) c ∨ Since p q g calls ∧ q (session g calls) c := by
  constructor
  · rintro ⟨before, d, later, h, hp, hq⟩
    rcases concat_eq_append_cons_iff.1 h with ⟨rfl, rfl, rfl⟩ | ⟨init, rfl, rfl⟩
    · exact Or.inl hp
    · refine Or.inr ⟨⟨before, d, init, rfl, hp, fun mid e rest hinit => ?_⟩, hq init c [] rfl⟩
      exact hq mid e (rest ++ [c]) (by simp [hinit])
  · rintro (hp | ⟨⟨before, d, later, rfl, hp, hq⟩, hc⟩)
    · exact ⟨calls, c, [], rfl, hp, by simp⟩
    · refine ⟨before, d, later ++ [c], by simp, hp, fun mid e rest hlater => ?_⟩
      rcases concat_eq_append_cons_iff.1 hlater with ⟨rfl, rfl, rfl⟩ | ⟨init, rfl, hinit⟩
      · exact hc
      · exact hq mid e init hinit

/-! ## The open rule -/

/-- The rule that is open is the one that the last header has opened, with nothing closed and no
line failed since then. -/
theorem cursor_session_eq_some_iff (g : Grammar) (calls : List Call) (name : Text) :
    (session g calls).cursor = some name ↔ Since (Opens name) Continues g calls := by
  induction calls using List.reverseRecOn with
  | nil => simp [session, not_since_nil]
  | append_singleton calls c ih =>
    rw [session_concat, since_concat, ← ih]
    rcases call_cases (session g calls) c with
      ⟨n, hopens, hcursor, -⟩ | ⟨n, hcontinues, hold, hcursor, -⟩ | ⟨hfails, hreset⟩
    · have hnot : ¬Continues (session g calls) c := fun h => h.2 n hopens
      have hname : n = name ↔ Opens name (session g calls) c := by
        refine ⟨fun h => h ▸ hopens, ?_⟩
        obtain ⟨text, definition, -, rfl, hclass, -⟩ := hopens
        rintro ⟨text', definition', -, heq, hclass', -⟩
        obtain rfl := Call.line.inj heq
        exact (Line.header.inj (hclass.symm.trans hclass')).1
      simp [hcursor, hname, hnot]
    · simp [hcursor, hold, hcontinues, hcontinues.2 name]
    · have hnot : ¬Continues (session g calls) c := fun h => hfails h.1
      have hopens : ¬Opens name (session g calls) c := fun h => hfails h.succeeds
      simp [hreset, Reader.reset, hnot, hopens]

/-- Some rule is open if a header has opened one, with nothing closed and no line failed since
then. -/
theorem cursor_session_ne_none_iff (g : Grammar) (calls : List Call) :
    (session g calls).cursor ≠ none ↔
      Since (fun r c => ∃ name, Opens name r c) Succeeds g calls := by
  induction calls using List.reverseRecOn with
  | nil => simp [session, not_since_nil]
  | append_singleton calls c ih =>
    rw [session_concat, since_concat, ← ih]
    rcases call_cases (session g calls) c with
      ⟨n, hopens, hcursor, -⟩ | ⟨n, hcontinues, hold, hcursor, -⟩ | ⟨hfails, hreset⟩
    · have hsome : ∃ name, Opens name (session g calls) c := ⟨n, hopens⟩
      simp [hcursor, hsome]
    · simp [hcursor, hold, hcontinues.1]
    · have hopens : ¬∃ name, Opens name (session g calls) c := fun ⟨_, h⟩ => hfails h.succeeds
      simp [hreset, Reader.reset, hfails, hopens]

/-- The rule that is open is a rule of the grammar. -/
theorem mem_names_of_cursor_session {g : Grammar} {name : Text} : ∀ {calls : List Call},
    (session g calls).cursor = some name → name ∈ (session g calls).grammar.names := by
  intro calls
  induction calls using List.reverseRecOn with
  | nil => simp [session]
  | append_singleton calls c ih =>
    rw [session_concat]
    rcases call_cases (session g calls) c with
      ⟨n, -, hcursor, hnames⟩ | ⟨n, -, hold, hcursor, hnames⟩ | ⟨-, hreset⟩
    · intro h
      obtain rfl : n = name := Option.some.inj (hcursor.symm.trans h)
      simp [hnames]
    · intro h
      rw [hnames]
      exact ih (hold.trans (hcursor.symm.trans h))
    · simp [hreset, Reader.reset]

/-- While no rule is open, calls that open none leave the reader as it is. -/
theorem session_append_of_not_opens {g : Grammar} {calls : List Call}
    (h : (session g calls).cursor = none) : ∀ {later : List Call},
    (∀ mid c rest, later = mid ++ c :: rest → ∀ name, ¬Opens name (session g (calls ++ mid)) c) →
    session g (calls ++ later) = session g calls := by
  intro later
  induction later using List.reverseRecOn with
  | nil => simp
  | append_singleton later c ih =>
    intro hlater
    have hbefore : session g (calls ++ later) = session g calls :=
      ih fun mid d rest hrest => hlater mid d (rest ++ [c]) (by simp [hrest])
    have hc : ∀ name, ¬Opens name (session g (calls ++ later)) c := hlater later c [] rfl
    rw [← List.append_assoc, session_concat]
    rcases call_cases (session g (calls ++ later)) c with
      ⟨n, hopens, -⟩ | ⟨n, -, hold, -⟩ | ⟨-, hreset⟩
    · exact absurd hopens (hc n)
    · rw [hbefore, h] at hold
      cases hold
    · rw [hreset, hbefore, Reader.reset, ← h]

end Reader

open Reader in
/-- Whatever a session does to a grammar : the open rule is the one that the last header has
opened since a rule was closed or a line failed, if there is one, and texts can be appended to
it. A continuation fails exactly if there is none, and a header exactly if its name is taken.
After a line that fails the grammar stays as it is, and continuations fail, until a header opens
a rule again. -/
theorem session_cursor (g : Grammar) (calls : List Call) :
    (∀ name, (session g calls).cursor = some name ↔ Since (Opens name) Continues g calls) ∧
    ((session g calls).cursor ≠ none ↔
      Since (fun r c => ∃ name, Opens name r c) Succeeds g calls) ∧
    (∀ name, (session g calls).cursor = some name →
      name ∈ (session g calls).grammar.names ∧
      ∀ text, ∃ g', (session g calls).grammar.append name text = .ok g') ∧
    (∀ text e, (session g calls).addLine text = .error e ↔
      (∃ name definition, Line.classify text = .header name definition ∧
        name ∈ (session g calls).grammar.names ∧ e = .duplicateRule name none) ∨
      ∃ shown, Line.classify text = .continuation shown ∧
        ¬Since (fun r c => ∃ name, Opens name r c) Succeeds g calls ∧
        e = .orphanedContent text none) ∧
    ∀ failing e, (session g calls).addLine failing = .error e → ∀ later,
      (∀ mid c rest, later = mid ++ c :: rest →
        ∀ name, ¬Opens name (session g (calls ++ .line failing :: mid)) c) →
      session g (calls ++ .line failing :: later) = ⟨(session g calls).grammar, none⟩ ∧
      ∀ text shown, Line.classify text = .continuation shown →
        (session g (calls ++ .line failing :: later)).addLine text =
          .error (.orphanedContent text none) ∧
        (session g (calls ++ .line failing :: (later ++ [.line text]))).grammar =
          (session g calls).grammar := by
  refine ⟨cursor_session_eq_some_iff g calls, cursor_session_ne_none_iff g calls,
    fun name hname => ?_, fun text e => ?_, fun failing e hfails later hlater => ?_⟩
  · have hmem := mem_names_of_cursor_session hname
    exact ⟨hmem, fun text => ⟨_, Grammar.append_of_mem hmem text⟩⟩
  · rw [addLine_eq_error_iff, ← cursor_session_ne_none_iff]
    refine or_congr_right (exists_congr fun shown => and_congr_right fun _ =>
      and_congr_left fun _ => ?_)
    refine ⟨fun h hsome => ?_, fun h name hname => absurd (by simp [hname]) h⟩
    obtain ⟨name, hname⟩ := Option.ne_none_iff_exists'.1 hsome
    exact h name hname (mem_names_of_cursor_session hname)
  · have hclosed : session g (calls ++ [.line failing]) = (session g calls).reset := by
      rw [session_concat, call, after_of_error hfails]
    have hkept : session g (calls ++ .line failing :: later) = (session g calls).reset := by
      rw [List.append_cons, ← hclosed]
      refine session_append_of_not_opens (by rw [hclosed, Reader.reset]) fun mid c rest hrest => ?_
      simpa using hlater mid c rest hrest
    refine ⟨hkept, fun text shown hclass => ?_⟩
    have horphan : (session g calls).reset.addLine text = .error (.orphanedContent text none) :=
      addLine_of_orphan hclass rfl
    refine ⟨by rw [hkept, horphan], ?_⟩
    rw [← List.cons_append, ← List.append_assoc, session_concat, hkept, call,
      after_of_error horphan]
    rfl

open Reader in
/-- A second header of a name fails while a rule is open; after that a continuation fails, and
closing a rule that is not open changes nothing. -/
theorem session_cursor_after_duplicate :
    let g : Grammar := ⟨[⟨"a".toList, "'x'".toList⟩]⟩
    let calls : List Call := [.line "<b> ::= 'y'".toList, .line "| <a>".toList]
    let later : List Call := [.line "| 'z'".toList, .reset]
    let duplicate := "<a> ::= 'w'".toList
    let orphan := "| <b>".toList
    let kept : Grammar := ⟨[⟨"a".toList, "'x'".toList⟩, ⟨"b".toList, "'y' | <a>".toList⟩]⟩
    (session g calls).cursor = some "b".toList ∧ Since (Opens "b".toList) Continues g calls ∧
      (∃ g', (session g calls).grammar.append "b".toList orphan = .ok g') ∧
      (session g calls).addLine duplicate = .error (.duplicateRule "a".toList none) ∧
      session g (calls ++ .line duplicate :: later) = ⟨kept, none⟩ ∧
      (session g (calls ++ .line duplicate :: later)).addLine orphan =
        .error (.orphanedContent orphan none) ∧
      (session g (calls ++ .line duplicate :: (later ++ [.line orphan]))).grammar = kept := by
  intro g calls later duplicate orphan kept
  obtain ⟨hcursor, -, happend, herror, hafter⟩ := session_cursor g calls
  have hopen : (session g calls).cursor = some "b".toList := by decide +kernel
  have hgrammar : (session g calls).grammar = kept := by decide +kernel
  have hclass : Line.classify duplicate = .header "a".toList "'w'".toList := by decide +kernel
  have hduplicate : (session g calls).addLine duplicate = .error (.duplicateRule "a".toList none) :=
    (herror _ _).2 (Or.inl ⟨_, _, hclass, by rw [hgrammar]; decide, rfl⟩)
  have hlater : ∀ mid c rest, later = mid ++ c :: rest →
      ∀ name, ¬Opens name (session g (calls ++ .line duplicate :: mid)) c := by
    intro mid c rest hsplit
    have hc : c ∈ later := by simp [hsplit]
    rcases List.mem_pair.1 hc with rfl | rfl
    · have hclass : Line.classify "| 'z'".toList = .continuation "| 'z'".toList := by decide +kernel
      exact not_opens_of_continuation hclass
    · exact fun name h => not_succeeds_reset _ h.succeeds
  have hsince := (hcursor "b".toList).1 hopen
  have hgrows := (happend "b".toList hopen).2 orphan
  obtain ⟨hkept, horphan⟩ := hafter duplicate _ hduplicate later hlater
  obtain ⟨hfails, huntouched⟩ := horphan orphan orphan (by decide +kernel)
  refine ⟨hopen, hsince, hgrows, hduplicate, ?_, hfails, ?_⟩
  · rw [hkept, hgrammar]
  · rw [huntouched, hgrammar]

end Rulebook
