import Rulebook.Proofs.Rules
import Rulebook.Reader

/-!
# Histories of a grammar

A grammar grows by operations : a rule is inserted, a text appended, a line read under some
cursor. What an operation changes if it succeeds is said without the grammar
(`Operation.change`), and so is whether it fails : a name is opened once, and texts go only to
names that are open (`Change.refusal?`). A grammar that starts empty is what the changes so far
add up to, whatever has failed in between (`run_replays`).
-/

namespace Rulebook

open Text

/-! ## Changes -/

/-- What is done to the rules of a grammar. -/
inductive Change where
  /-- A rule is opened under a name. -/
  | opening (name definition : Text)
  /-- A text goes to the rule of a name. -/
  | growth (name text : Text)
  /-- A text that no rule is open for. -/
  | orphan (text : Text)
  deriving DecidableEq, Repr

namespace Change

/-- The name that a change opens a rule for. -/
def opened? : Change → Option Text
  | opening name _ => some name
  | _ => none

/-- The text that a change adds to the rule of the name. -/
def grown? (name : Text) : Change → Option Text
  | growth n text => if n = name then some text else none
  | _ => none

/-- The names that are opened, in order. -/
def opened (done : List Change) : List Text := done.filterMap opened?

/-- The texts that go to a name, in order. -/
def grown (done : List Change) (name : Text) : List Text := done.filterMap (grown? name)

/-- The rule that a change opens, as it is after all that is done : the text it is opened with,
then a space and the text for each that goes to its name. -/
def rule? (done : List Change) : Change → Option Rule
  | opening name definition => some ⟨name, definition ++ (grown done name).flatMap (' ' :: ·)⟩
  | _ => none

/-- The rules that are opened, in order, as they are after all that is done. -/
def replay (done : List Change) : List Rule := done.filterMap (rule? done)

/-- The error of a change, after those done before : a name that is opened already, or a text
for a name that is not. -/
def refusal? (done : List Change) : Change → Option Error
  | opening name _ => if name ∈ opened done then some (.duplicateRule name none) else none
  | growth name text =>
    if name ∈ opened done then none else some (.orphanedContent text none)
  | orphan text => some (.orphanedContent text none)

/-- What a line under a cursor changes. -/
def ofLine (cursor : Cursor) : Line → Change
  | .header name definition => opening name definition
  | .continuation text =>
    match cursor with
    | some name => growth name text
    | none => orphan text

/-- Makes a change. -/
def apply (g : Grammar) : Change → Except Error Grammar
  | opening name definition => g.insert name definition
  | growth name text => g.append name text
  | orphan text => .error (.orphanedContent text none)

end Change

/-! ## Operations -/

/-- An operation on a grammar. -/
inductive Operation where
  | insert (name definition : Text)
  | append (name text : Text)
  | line (cursor : Cursor) (text : Text)
  deriving DecidableEq, Repr

namespace Operation

/-- How the operation ends, and the grammar afterwards. -/
def step (g : Grammar) : Operation → Except Error Unit × Grammar
  | insert name definition => g.insertRule name definition
  | append name text => g.appendText name text
  | line cursor text =>
    let (ended, h) := g.readLine cursor text
    (discard ended, h)

/-- The grammar after the operation, if that succeeds. -/
def apply (g : Grammar) (op : Operation) : Except Error Grammar := settled (op.step g)

/-- What the operation changes if it succeeds. -/
def change : Operation → Change
  | insert name definition => .opening name definition
  | append name text => .growth name text
  | line cursor text => .ofLine cursor (.classify text)

/-- The grammar that an operation leaves behind. -/
def after (g : Grammar) (op : Operation) : Grammar := (op.step g).2

/-- The grammar that operations make of the empty one. -/
def run (ops : List Operation) : Grammar := ops.foldl after .empty

/-- The changes of the operations that succeed, one after another from a grammar on. -/
def changesFrom : Grammar → List Operation → List Change
  | _, [] => []
  | g, op :: ops =>
    match op.apply g with
    | .ok g' => op.change :: changesFrom g' ops
    | .error _ => changesFrom g ops

/-- The changes of the operations that succeed. -/
def changes (ops : List Operation) : List Change := changesFrom .empty ops

end Operation

/-! ## What changes add up to -/

namespace Change

@[simp] theorem opened_append (done later : List Change) :
    opened (done ++ later) = opened done ++ opened later := List.filterMap_append

@[simp] theorem grown_append (done later : List Change) (name : Text) :
    grown (done ++ later) name = grown done name ++ grown later name := List.filterMap_append

theorem map_name_replay (done : List Change) : (replay done).map Rule.name = opened done := by
  rw [replay, List.map_filterMap]
  refine List.filterMap_congr fun c _ => ?_
  cases c <;> rfl

/-- A rule that is opened last is as it is opened, if nothing has gone to its name. -/
theorem replay_concat_opening {done : List Change} {name : Text} (h : grown done name = [])
    (definition : Text) :
    replay (done ++ [opening name definition]) = replay done ++ [⟨name, definition⟩] := by
  have hgrown : ∀ n, grown (done ++ [opening name definition]) n = grown done n := by
    intro n
    simp [grown, grown?]
  have hrule : rule? (done ++ [opening name definition]) = rule? done := by
    funext c
    cases c <;> simp only [rule?, hgrown]
  rw [replay, hrule, List.filterMap_append, ← replay]
  simp [rule?, h]

/-- A text that goes to a name extends the rule of that name. -/
theorem replay_concat_growth (done : List Change) (name text : Text) :
    replay (done ++ [growth name text]) =
      (replay done).map fun r => if r.name = name then r.extend text else r := by
  have hrule : ∀ c, rule? (done ++ [growth name text]) c =
      (rule? done c).map fun r => if r.name = name then r.extend text else r := by
    intro c
    cases c with
    | opening n definition =>
      by_cases hn : n = name
      · simp [rule?, grown, grown?, hn, Rule.extend]
      · simp [rule?, grown, grown?, hn, Ne.symm hn]
    | growth _ _ => rfl
    | orphan _ => rfl
  rw [replay, replay, List.map_filterMap, List.filterMap_append]
  simp only [hrule]
  simp [rule?]

/-- A grammar that is what changes add up to. -/
structure Replayed (done : List Change) (g : Grammar) : Prop where
  nodup_opened : (opened done).Nodup
  grown_eq_nil : ∀ name, name ∉ opened done → grown done name = []
  rules : g.rules = replay done

theorem replayed_empty : Replayed [] .empty := ⟨List.nodup_nil, fun _ _ => rfl, rfl⟩

/-- The names of a grammar that changes have made are those that were opened. -/
theorem Replayed.names_eq {done : List Change} {g : Grammar} (h : Replayed done g) :
    g.names = opened done := by
  rw [Grammar.names, h.rules, map_name_replay]

/-- A change that is refused fails with that error. -/
theorem Replayed.apply_of_some {done : List Change} {g : Grammar} {c : Change} {e : Error}
    (h : Replayed done g) (hc : c.refusal? done = some e) : c.apply g = .error e := by
  cases c with
  | opening name definition =>
    simp only [refusal?, Option.ite_none_right_eq_some, Option.some.injEq] at hc
    obtain ⟨hname, rfl⟩ := hc
    rw [← h.names_eq] at hname
    exact Grammar.insert_of_mem hname definition
  | growth name text =>
    simp only [refusal?, Option.ite_none_left_eq_some, Option.some.injEq] at hc
    obtain ⟨hname, rfl⟩ := hc
    rw [← h.names_eq] at hname
    exact Grammar.append_of_not_mem hname text
  | orphan text => exact congrArg Except.error (Option.some.inj hc)

/-- A change that is not refused is made, and the grammar is what all changes add up to. -/
theorem Replayed.apply_of_none {done : List Change} {g : Grammar} {c : Change}
    (h : Replayed done g) (hc : c.refusal? done = none) :
    ∃ g', c.apply g = .ok g' ∧ Replayed (done ++ [c]) g' := by
  cases c with
  | opening name definition =>
    have hname : name ∉ opened done := by simpa [refusal?] using hc
    refine ⟨_, Grammar.insert_of_not_mem (h.names_eq ▸ hname) definition, ?_, fun n hn => ?_, ?_⟩
    · show (opened (done ++ [_])).Nodup
      rw [opened_append]
      exact h.nodup_opened.append (List.nodup_singleton name) (List.disjoint_singleton.2 hname)
    · simp only [opened_append, List.mem_append, not_or] at hn
      simpa [grown, grown?] using h.grown_eq_nil n hn.1
    · rw [replay_concat_opening (h.grown_eq_nil name hname), h.rules]
  | growth name text =>
    have hname : name ∈ opened done := by simpa [refusal?] using hc
    have hopened : opened (done ++ [growth name text]) = opened done := by simp [opened, opened?]
    refine ⟨_, Grammar.append_of_mem (h.names_eq ▸ hname) text, hopened ▸ h.nodup_opened,
      fun n hn => ?_, ?_⟩
    · rw [hopened] at hn
      have hne : name ≠ n := fun heq => hn (heq ▸ hname)
      simpa [grown, grown?, hne] using h.grown_eq_nil n hn
    · rw [replay_concat_growth, h.rules]
  | orphan text => simp [refusal?] at hc

end Change

/-! ## What operations add up to -/

namespace Operation

theorem apply_line (g : Grammar) (cursor : Cursor) (text : Text) :
    (line cursor text).apply g = (Change.ofLine cursor (.classify text)).apply g := by
  cases hclass : Line.classify text with
  | header name definition =>
    simp only [apply, step, Grammar.readLine, hclass, Change.ofLine, Change.apply, Grammar.insert]
    rcases g.insertRule name definition with ⟨_ | _, h⟩ <;> rfl
  | continuation shown =>
    cases cursor with
    | none =>
      simp only [apply, step, Grammar.readLine, hclass]
      rfl
    | some name =>
      simp only [apply, step, Grammar.readLine, hclass, Change.ofLine, Change.apply, Grammar.append]
      rcases g.appendText name shown with ⟨_ | _, h⟩ <;> rfl

/-- An operation does what its change does. -/
theorem apply_eq (g : Grammar) (op : Operation) : op.apply g = op.change.apply g := by
  cases op with
  | insert name definition => rfl
  | append name text => rfl
  | line cursor text => exact apply_line g cursor text

/-- An operation that fails leaves the grammar as it was. -/
theorem after_of_error {g : Grammar} {op : Operation} {e : Error} (h : op.apply g = .error e) :
    op.after g = g := by
  cases op with
  | insert name definition => exact congrArg Prod.snd (Grammar.insertRule_of_error h)
  | append name text => exact congrArg Prod.snd (Grammar.appendText_of_error h)
  | line cursor text =>
    obtain ⟨result, g', hline⟩ : ∃ result g', g.readLine cursor text = (result, g') := ⟨_, _, rfl⟩
    simp only [after, apply, step, hline] at h ⊢
    cases result with
    | ok _ => cases h
    | error e' =>
      have hkept := Grammar.readLine_of_error (congrArg Prod.fst hline)
      rwa [hline] at hkept

/-- An operation that succeeds leaves behind what it makes. -/
theorem after_of_ok {g g' : Grammar} {op : Operation} (h : op.apply g = .ok g') :
    op.after g = g' := by
  unfold apply at h
  rw [after]
  obtain ⟨result, s, hstep⟩ : ∃ result s, op.step g = (result, s) := ⟨_, _, rfl⟩
  rw [hstep] at h ⊢
  cases result with
  | ok _ => exact Except.ok.inj h
  | error e => cases h

/-- Operations keep a grammar the replay of its changes. -/
theorem replayed_run_from : ∀ (ops : List Operation) {done : List Change} {g : Grammar},
    Change.Replayed done g →
    Change.Replayed (done ++ changesFrom g ops) (ops.foldl after g)
  | [], _, _, h => by simpa [changesFrom] using h
  | op :: ops, done, g, h => by
    rw [changesFrom, List.foldl_cons]
    cases hc : op.change.refusal? done with
    | some e =>
      have herror : op.apply g = .error e := (apply_eq g op).trans (h.apply_of_some hc)
      rw [herror, after_of_error herror]
      exact replayed_run_from ops h
    | none =>
      obtain ⟨g', hg', h'⟩ := h.apply_of_none hc
      have hok : op.apply g = .ok g' := (apply_eq g op).trans hg'
      rw [hok, after_of_ok hok, List.append_cons]
      exact replayed_run_from ops h'

theorem replayed_run (ops : List Operation) : Change.Replayed (changes ops) (run ops) :=
  replayed_run_from ops Change.replayed_empty

/-- An operation fails exactly if its change is refused after those that have been made. -/
theorem apply_run_eq_error_iff {ops : List Operation} {op : Operation} {e : Error} :
    op.apply (run ops) = .error e ↔ op.change.refusal? (changes ops) = some e := by
  have h := replayed_run ops
  rw [apply_eq]
  cases hc : op.change.refusal? (changes ops) with
  | some e' => simp [h.apply_of_some hc]
  | none =>
    obtain ⟨g', hg', -⟩ := h.apply_of_none hc
    simp [hg']

end Operation

open Operation in
/-- Whatever is done to a grammar that starts empty : an operation fails exactly if it opens a
name that has been opened, or goes to a name that has not, and leaves the grammar as it was. The
names are those that have been opened, each once and in order, and every definition is the text
that its name was opened with and, after a space each, the texts that have gone to it since. -/
theorem run_replays (ops : List Operation) :
    (∀ (op : Operation) (e : Error), op.apply (run ops) = .error e ↔
      op.change.refusal? (changes ops) = some e) ∧
    (∀ (op : Operation) (e : Error), op.apply (run ops) = .error e →
      run (ops ++ [op]) = run ops) ∧
    (run ops).names = Change.opened (changes ops) ∧ (run ops).names.Nodup ∧
    (run ops).rules = Change.replay (changes ops) := by
  have h := replayed_run ops
  refine ⟨fun op e => apply_run_eq_error_iff, fun op e he => ?_, h.names_eq, ?_, h.rules⟩
  · rw [run, List.foldl_append, ← run, List.foldl_cons, List.foldl_nil, after_of_error he]
  · rw [h.names_eq]
    exact h.nodup_opened

open Operation in
/-- A text for a name that is opened later only, a header for a name that is taken, a cursor at
a name that nobody opens, and texts that go to their rules over other operations. -/
theorem run_replays_over_failures :
    let ops : List Operation := [.append "b".toList "'x'".toList,
      .line none "<b> ::= 'y'".toList, .insert "a".toList [], .line (some "c".toList) "|".toList,
      .line (some "a".toList) "| 'z'".toList, .append "b".toList "<a>".toList,
      .insert "b".toList "'w'".toList, .line (some "b".toList) "<a> ::= 'v'".toList]
    let op : Operation := .line (some "a".toList) "<b> ::= <c>".toList
    changes ops = [.opening "b".toList "'y'".toList, .opening "a".toList [],
        .growth "a".toList "| 'z'".toList, .growth "b".toList "<a>".toList] ∧
      op.apply (run ops) = .error (.duplicateRule "b".toList none) ∧
      run (ops ++ [op]) = run ops ∧ (run ops).names = ["b".toList, "a".toList] ∧
      (run ops).names.Nodup ∧
      (run ops).rules = [⟨"b".toList, "'y' <a>".toList⟩, ⟨"a".toList, " | 'z'".toList⟩] := by
  intro ops op
  have hchanges : changes ops = [.opening "b".toList "'y'".toList, .opening "a".toList [],
      .growth "a".toList "| 'z'".toList, .growth "b".toList "<a>".toList] := by decide +kernel
  obtain ⟨hfails, hkeeps, hnames, hnodup, hrules⟩ := run_replays ops
  rw [hchanges] at hfails hnames hrules
  have hop : op.apply (run ops) = .error (.duplicateRule "b".toList none) :=
    (hfails op _).2 (by decide +kernel)
  exact ⟨hchanges, hop, hkeeps op _ hop, hnames, hnodup, hrules⟩

end Rulebook
