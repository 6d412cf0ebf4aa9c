import Mathlib.Data.List.Perm.Basic
import Mathlib.Data.List.Nodup
import Rulebook.Proofs.Decomposition

/-!
# Rules under names that are taken once

A name can be inserted if and only if it is not taken (`insert_of_not_mem`,
`insert_of_mem`), and a text that is appended to the last rule changes that rule alone
(`append_last`). If no name is taken twice, the order of the rules does not matter to what
is found under a name (`get?_eq_of_perm`), and grammars with the same rules in another order
are the same mapping (`sameRules_of_perm`). A check passes if and only if every definition
is accepted (`check_eq_ok_iff`), or else it reports the first that is not
(`check_eq_error_iff`).
-/

namespace Rulebook.Grammar

/-! ## Inserting and appending -/

theorem insert_of_mem {g : Grammar} {name : Text} (h : name ∈ g.names) (definition : Text) :
    g.insert name definition = .error (.duplicateRule name none) := by
  rw [insert, insertRule_of_mem h, settled_error]

theorem insert_of_not_mem {g : Grammar} {name : Text} (h : name ∉ g.names) (definition : Text) :
    g.insert name definition = .ok ⟨g.rules ++ [⟨name, definition⟩]⟩ := by
  rw [insert, insertRule_of_not_mem h, settled_ok]

theorem append_of_mem {g : Grammar} {name : Text} (h : name ∈ g.names) (text : Text) :
    g.append name text =
      .ok ⟨g.rules.map fun r => if r.name = name then r.extend text else r⟩ := by
  rw [append, appendText_of_mem h, settled_ok]

theorem append_of_not_mem {g : Grammar} {name : Text} (h : name ∉ g.names) (text : Text) :
    g.append name text = .error (.orphanedContent text none) := by
  rw [append, appendText_of_not_mem h, settled_error]

/-- Under a name that no earlier rule has, the last rule grows. -/
theorem append_last {rules : List Rule} {r : Rule} (h : r.name ∉ rules.map Rule.name)
    (text : Text) : append ⟨rules ++ [r]⟩ r.name text = .ok ⟨rules ++ [r.extend text]⟩ := by
  have hname : r.name ∈ names ⟨rules ++ [r]⟩ := by simp [names]
  have hrules : ∀ q ∈ rules, (if q.name = r.name then q.extend text else q) = q := by
    intro q hq
    refine if_neg fun hname => h ?_
    rw [← hname]
    exact List.mem_map_of_mem hq
  have hmap : rules.map (fun q => if q.name = r.name then q.extend text else q) = rules :=
    (List.map_congr_left hrules).trans (List.map_id' rules)
  rw [append_of_mem hname, List.map_append, hmap]
  simp

/-! ## Finding -/

/-- Under distinct names a lookup gives the definition of the rule with the name. -/
theorem get?_eq_some_iff {g : Grammar} (hg : g.names.Nodup) {name definition : Text} :
    g.get? name = some definition ↔ ⟨name, definition⟩ ∈ g.rules := by
  obtain ⟨rules⟩ := g
  simp only [get?, names, Option.map_eq_some_iff] at hg ⊢
  induction rules with
  | nil => simp
  | cons r rules ih =>
    obtain ⟨hr, hrules⟩ := List.nodup_cons.1 hg
    by_cases hname : r.name = name
    · have hnot : ⟨name, definition⟩ ∉ rules := fun hmem =>
        hr (hname ▸ List.mem_map_of_mem hmem)
      rw [List.find?_cons_of_pos (by simpa using hname), List.mem_cons, or_iff_left hnot]
      subst hname
      obtain ⟨name, d⟩ := r
      simp [eq_comm]
    · have hne : (⟨name, definition⟩ : Rule) ≠ r := by
        rintro rfl
        exact hname rfl
      rw [List.find?_cons_of_neg (by simpa using hname), List.mem_cons, or_iff_right hne]
      exact ih hrules

/-- A text can be appended to what is found under a name, and is then found at its end. -/
theorem exists_append_eq {g : Grammar} {name definition : Text} (h : g.get? name = some definition)
    (text : Text) : ∃ grown, g.append name text = .ok grown ∧
      grown.get? name = some (definition ++ ' ' :: text) := by
  have hname : name ∈ g.names := by
    rw [← contains_iff, ← isSome_get?, h, Option.isSome_some]
  refine ⟨_, append_of_mem hname text, ?_⟩
  obtain ⟨r, hr, rfl⟩ := Option.map_eq_some_iff.1 h
  have hname : r.name = name := by simpa using List.find?_some hr
  have hfind : ((fun r : Rule => decide (r.name = name)) ∘ fun r : Rule =>
      if r.name = name then r.extend text else r) = fun r : Rule => decide (r.name = name) := by
    funext r
    simp only [Function.comp_apply]
    split <;> rfl
  rw [get?, List.find?_map, hfind, hr, Option.map_some, if_pos hname]
  rfl

/-- What is found under a name does not depend on the order of the rules. -/
theorem get?_eq_of_perm {g h : Grammar} (hg : g.names.Nodup) (hperm : g.rules.Perm h.rules)
    (name : Text) : g.get? name = h.get? name := by
  have hh : h.names.Nodup := (hperm.map Rule.name).nodup_iff.1 hg
  refine Option.ext fun definition => ?_
  rw [get?_eq_some_iff hg, get?_eq_some_iff hh, hperm.mem_iff]

theorem sameRules_of_perm {g h : Grammar} (hg : g.names.Nodup) (hperm : g.rules.Perm h.rules) :
    g.sameRules h = true := by
  simp only [sameRules, Bool.and_eq_true, beq_iff_eq, List.all_eq_true]
  refine ⟨hperm.length_eq, fun r hr => ?_⟩
  rw [← get?_eq_of_perm hg hperm]
  exact (get?_eq_some_iff hg).2 hr

/-! ## Checking -/

/-- The error of the first rule, in order, whose definition is not accepted. -/
def FirstRejected (rules : List Rule) (e : Error) : Prop :=
  ∃ earlier rule later unread, rules = earlier ++ rule :: later ∧
    (∀ r ∈ earlier, Token.Accepts r.definition) ∧ Token.tokenize rule.definition = .error unread ∧
    e = .invalidSyntax rule.name unread.position unread.remainder

theorem checkDefinition_of_accepts {definition : Text} (h : Token.Accepts definition)
    (name : Text) : checkDefinition name definition = .ok () := by
  obtain ⟨placed, h⟩ := h
  rw [checkDefinition, tokenize, h]
  rfl

theorem checkDefinition_of_error {definition : Text} {unread : Token.Unread}
    (h : Token.tokenize definition = .error unread) (name : Text) :
    checkDefinition name definition =
      .error (.invalidSyntax name unread.position unread.remainder) := by
  rw [checkDefinition, tokenize, h]
  rfl

theorem accepts_or_error (definition : Text) :
    Token.Accepts definition ∨ ∃ unread, Token.tokenize definition = .error unread := by
  cases h : Token.tokenize definition with
  | ok placed => exact Or.inl ⟨placed, h⟩
  | error unread => exact Or.inr ⟨unread, rfl⟩

theorem check_cons (r : Rule) (rules : List Rule) :
    check ⟨r :: rules⟩ = (checkDefinition r.name r.definition >>= fun _ => check ⟨rules⟩) := rfl

theorem check_of_accepts : ∀ {rules : List Rule}, (∀ r ∈ rules, Token.Accepts r.definition) →
    check ⟨rules⟩ = .ok ()
  | [], _ => rfl
  | r :: rules, h => by
    obtain ⟨hr, hrules⟩ := List.forall_mem_cons.1 h
    rw [check_cons, checkDefinition_of_accepts hr]
    exact check_of_accepts hrules

theorem check_of_firstRejected {rules : List Rule} {e : Error} (h : FirstRejected rules e) :
    check ⟨rules⟩ = .error e := by
  obtain ⟨earlier, rule, later, unread, rfl, hearlier, hrule, rfl⟩ := h
  induction earlier with
  | nil =>
    rw [List.nil_append, check_cons, checkDefinition_of_error hrule]
    rfl
  | cons r earlier ih =>
    obtain ⟨hr, hearlier⟩ := List.forall_mem_cons.1 hearlier
    rw [List.cons_append, check_cons, checkDefinition_of_accepts hr]
    exact ih hearlier

theorem accepts_or_firstRejected : ∀ rules : List Rule,
    (∀ r ∈ rules, Token.Accepts r.definition) ∨ ∃ e, FirstRejected rules e
  | [] => Or.inl (by simp)
  | r :: rules => by
    rcases accepts_or_error r.definition with hr | ⟨unread, hr⟩
    · rcases accepts_or_firstRejected rules with hrules | ⟨e, earlier, rule, later, u, rfl, h, hu⟩
      · exact Or.inl (List.forall_mem_cons.2 ⟨hr, hrules⟩)
      · exact Or.inr ⟨e, r :: earlier, rule, later, u, rfl,
          List.forall_mem_cons.2 ⟨hr, h⟩, hu⟩
    · exact Or.inr ⟨_, [], r, rules, unread, rfl, by simp, hr, rfl⟩

/-- The check passes only if all definitions are accepted. -/
theorem check_eq_ok_iff {g : Grammar} :
    g.check = .ok () ↔ ∀ r ∈ g.rules, Token.Accepts r.definition := by
  refine ⟨fun h => ?_, check_of_accepts⟩
  rcases accepts_or_firstRejected g.rules with hrules | ⟨e, he⟩
  · exact hrules
  · rw [check_of_firstRejected he] at h
    simp at h

/-- The check fails only with the error of the first definition that is rejected. -/
theorem check_eq_error_iff {g : Grammar} {e : Error} :
    g.check = .error e ↔ FirstRejected g.rules e := by
  refine ⟨fun h => ?_, check_of_firstRejected⟩
  rcases accepts_or_firstRejected g.rules with hrules | ⟨e', he'⟩
  · rw [check_of_accepts hrules] at h
    simp at h
  · rw [check_of_firstRejected he'] at h
    obtain rfl : e' = e := by simpa using h
    exact he'

end Rulebook.Grammar
