import Rulebook.Error
import Rulebook.Token

/-!
# Grammars

A grammar is a list of named rules in the order in which they were inserted. A name is
inserted once (`names_insert`); after that its definition only grows, by texts appended
after one space (`names_append`). Whether an operation fails or not, it leaves a grammar behind
(`insertRule`, `appendText`), and that is the one before if it fails (`insertRule_of_error`,
`appendText_of_error`). Two grammars are the same mapping (`sameRules`) if they
have as many rules and every rule of the one is found in the other, whatever the order. A
grammar passes `check` if every definition is a sequence of tokens.
-/

namespace Rulebook

/-- What an operation that may fail leaves behind, unless it has failed. -/
def settled {σ : Type} (ended : Except Error Unit × σ) : Except Error σ :=
  ended.1.map fun _ => ended.2

@[simp] theorem settled_ok {σ : Type} (u : Unit) (s : σ) : settled (.ok u, s) = .ok s := rfl

@[simp] theorem settled_error {σ : Type} (e : Error) (s : σ) :
    settled (.error e, s) = .error e := rfl

/-- A rule : its name and the text that defines it. -/
structure Rule where
  name : Text
  definition : Text
  deriving DecidableEq, Repr

/-- The rule with `text` after one space at the end of its definition. -/
def Rule.extend (r : Rule) (text : Text) : Rule :=
  { r with definition := r.definition ++ ' ' :: text }

/-- Rules in the order of their insertion. -/
structure Grammar where
  rules : List Rule
  deriving DecidableEq, Repr

namespace Grammar

/-- The grammar without rules. -/
def empty : Grammar := ⟨[]⟩

/-- How many rules there are. -/
def size (g : Grammar) : Nat := g.rules.length

/-- Whether there is no rule. -/
def isEmpty (g : Grammar) : Bool := g.rules.isEmpty

/-- The names of the rules, in order. -/
def names (g : Grammar) : List Text := g.rules.map Rule.name

/-- Whether some rule has the name. -/
def contains (g : Grammar) (name : Text) : Bool := g.rules.any fun r => r.name = name

/-- The definition of the rule with the name. -/
def get? (g : Grammar) (name : Text) : Option Text :=
  (g.rules.find? fun r => r.name = name).map Rule.definition

theorem contains_iff {g : Grammar} {name : Text} : g.contains name = true ↔ name ∈ g.names := by
  simp [contains, names]

theorem isSome_get? (g : Grammar) (name : Text) : (g.get? name).isSome = g.contains name := by
  rw [Bool.eq_iff_iff]
  simp [get?, contains, List.find?_isSome]

/-! ## Growing -/

/-- Inserts a rule at the end, unless its name is taken : how that ends, and the grammar
afterwards. -/
def insertRule (g : Grammar) (name definition : Text) : Except Error Unit × Grammar :=
  if g.contains name then (.error (.duplicateRule name none), g)
  else (.ok (), ⟨g.rules ++ [⟨name, definition⟩]⟩)

/-- Extends the definition of a rule, if it is there : how that ends, and the grammar afterwards. -/
def appendText (g : Grammar) (name text : Text) : Except Error Unit × Grammar :=
  if g.contains name then
    (.ok (), ⟨g.rules.map fun r => if r.name = name then r.extend text else r⟩)
  else (.error (.orphanedContent text none), g)

/-- The grammar with a new rule at its end. -/
def insert (g : Grammar) (name definition : Text) : Except Error Grammar :=
  settled (g.insertRule name definition)

/-- The grammar with a longer definition of a rule. -/
def append (g : Grammar) (name text : Text) : Except Error Grammar :=
  settled (g.appendText name text)

/-- The rules inserted one after another. -/
def ofRules (rules : List Rule) : Except Error Grammar :=
  rules.foldlM (fun g r => g.insert r.name r.definition) empty

section

variable {g h : Grammar} {name definition text : Text} {e : Error}

/-- A name that has a rule already is refused, and the grammar is as before. -/
theorem insertRule_of_mem (hname : name ∈ g.names) (definition : Text) :
    g.insertRule name definition = (.error (.duplicateRule name none), g) :=
  if_pos (contains_iff.2 hname)

/-- A new rule comes behind those that are there. -/
theorem insertRule_of_not_mem (hname : name ∉ g.names) (definition : Text) :
    g.insertRule name definition = (.ok (), ⟨g.rules ++ [⟨name, definition⟩]⟩) :=
  if_neg (mt contains_iff.1 hname)

/-- The text goes to the rule of the name, and all other rules are as before. -/
theorem appendText_of_mem (hname : name ∈ g.names) (text : Text) :
    g.appendText name text =
      (.ok (), ⟨g.rules.map fun r => if r.name = name then r.extend text else r⟩) :=
  if_pos (contains_iff.2 hname)

/-- A name without a rule is refused, and the grammar is as before. -/
theorem appendText_of_not_mem (hname : name ∉ g.names) (text : Text) :
    g.appendText name text = (.error (.orphanedContent text none), g) :=
  if_neg (mt contains_iff.1 hname)

/-- A rule that cannot be inserted leaves the grammar as it was. -/
theorem insertRule_of_error (he : g.insert name definition = .error e) :
    g.insertRule name definition = (.error e, g) := by
  by_cases hname : name ∈ g.names
  · rw [insert, insertRule_of_mem hname, settled_error] at he
    rw [insertRule_of_mem hname, Except.error.inj he]
  · simp [insert, insertRule_of_not_mem hname] at he

/-- A text that cannot be appended leaves the grammar as it was. -/
theorem appendText_of_error (he : g.append name text = .error e) :
    g.appendText name text = (.error e, g) := by
  by_cases hname : name ∈ g.names
  · simp [append, appendText_of_mem hname] at he
  · rw [append, appendText_of_not_mem hname, settled_error] at he
    rw [appendText_of_not_mem hname, Except.error.inj he]

/-- An insertion adds its name at the end. -/
theorem names_insert (hok : g.insert name definition = .ok h) : h.names = g.names ++ [name] := by
  by_cases hname : name ∈ g.names
  · simp [insert, insertRule_of_mem hname] at hok
  · rw [insert, insertRule_of_not_mem hname, settled_ok] at hok
    simp [← Except.ok.inj hok, names]

/-- No name comes or goes when a definition grows. -/
theorem names_append (hok : g.append name text = .ok h) : h.names = g.names := by
  by_cases hname : name ∈ g.names
  · rw [append, appendText_of_mem hname, settled_ok] at hok
    obtain rfl := Except.ok.inj hok
    rw [names, names, List.map_map]
    refine List.map_congr_left fun r _ => ?_
    simp only [Function.comp]
    split <;> rfl
  · simp [append, appendText_of_not_mem hname] at hok

end

/-! ## Comparing -/

/-- Whether two grammars give the same definitions to the same names. -/
def sameRules (g h : Grammar) : Bool :=
  g.size == h.size && g.rules.all fun r => h.get? r.name == some r.definition

/-! ## Checking -/

/-- Reads the definition of the named rule as tokens. -/
def tokenize (name definition : Text) : Except Error (List Token.Placed) :=
  match Token.tokenize definition with
  | .ok tokens => .ok tokens
  | .error unread => .error (.invalidSyntax name unread.position unread.remainder)

/-- Checks that the definition of the named rule is a sequence of tokens. -/
def checkDefinition (name definition : Text) : Except Error Unit := do
  let _ ← tokenize name definition

/-- Checks every rule in order and stops at the first that is not a sequence of tokens. -/
def check (g : Grammar) : Except Error Unit :=
  g.rules.forM fun r => checkDefinition r.name r.definition

end Grammar

end Rulebook
