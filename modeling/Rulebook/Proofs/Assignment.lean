import Mathlib.Data.List.Nodup
import Rulebook.Proofs.Decomposition
import Rulebook.Proofs.LowerCase
import Rulebook.Settings.Layers

/-!
# Members after an assignment

A value that is set under a name is looked up under the name in lower case, and nothing else
changes (`Value.get?_assign`). A table goes onto the table that is there, anything else takes the
place of what is there (`Value.onto`). If no two names of a table are the same up to the case of
letters, its members do not get in each other's way when they are set one after another
(`Value.get?_assignAll`), and names that are read as paths of one step are plain names
(`layer_eq_assignAll`).
-/

namespace Rulebook

/-! ## Names of members -/

namespace Members

variable {α : Type}

/-- A name that is put stays in its place, or is one more at the end. -/
theorem map_fst_put (name : Text) (value : α) (members : List (Text × α)) :
    (put name value members).map Prod.fst =
      if name ∈ members.map Prod.fst then members.map Prod.fst
      else members.map Prod.fst ++ [name] := by
  induction members with
  | nil => simp [put]
  | cons m rest ih =>
    obtain ⟨other, old⟩ := m
    by_cases h : other = name
    · simp [put, h]
    · simp only [put, if_neg h, List.map_cons, ih, List.mem_cons, Ne.symm h, false_or]
      split <;> rfl

/-- The value under a name, whatever the case of its letters, for a name in lower case. -/
def spelt? (name : Text) (members : List (Text × α)) : Option α :=
  (members.find? fun m => Text.lower m.1 = name).map Prod.snd

theorem spelt?_cons (name : Text) (m : Text × α) (rest : List (Text × α)) :
    spelt? name (m :: rest) = if Text.lower m.1 = name then some m.2 else spelt? name rest := by
  by_cases h : Text.lower m.1 = name <;> simp [spelt?, h]

/-- No two names are the same up to the case of letters. -/
def Distinct (members : List (Text × α)) : Prop := (members.map fun m => Text.lower m.1).Nodup

instance (members : List (Text × α)) : Decidable (Distinct members) :=
  inferInstanceAs (Decidable (members.map fun m => Text.lower m.1).Nodup)

/-- All names are in lower case, and no two of them are the same. -/
structure Lowered (members : List (Text × α)) : Prop where
  nodup : (members.map Prod.fst).Nodup
  lower_eq : ∀ name ∈ members.map Prod.fst, Text.lower name = name

theorem lowered_nil : Lowered ([] : List (Text × α)) := ⟨List.nodup_nil, by simp⟩

/-- Names in lower case, each once, stay so. -/
theorem Lowered.put {members : List (Text × α)} (h : Lowered members) (name : Text) (value : α) :
    Lowered (put (Text.lower name) value members) := by
  by_cases hmem : Text.lower name ∈ members.map Prod.fst
  · constructor
    · rw [map_fst_put, if_pos hmem]
      exact h.nodup
    · rw [map_fst_put, if_pos hmem]
      exact h.lower_eq
  · constructor
    · rw [map_fst_put, if_neg hmem]
      exact List.nodup_append.2 ⟨h.nodup, List.nodup_singleton _, by
        rintro a ha b hb rfl
        exact hmem (List.mem_singleton.1 hb ▸ ha)⟩
    · rw [map_fst_put, if_neg hmem]
      simp only [List.mem_append, List.mem_singleton]
      rintro other (hother | rfl)
      · exact h.lower_eq other hother
      · exact Text.lower_lower name

theorem Lowered.distinct {members : List (Text × α)} (h : Lowered members) : Distinct members := by
  have hnames : (members.map fun m => Text.lower m.1) = members.map Prod.fst :=
    List.map_congr_left fun m hm => h.lower_eq _ (List.mem_map_of_mem hm)
  rw [Distinct, hnames]
  exact h.nodup

/-- Among names in lower case it does not matter how a lookup treats case. -/
theorem Lowered.spelt?_eq {members : List (Text × α)} (h : Lowered members) (name : Text) :
    spelt? name members = get? name members := by
  have heq := h.lower_eq
  clear h
  induction members with
  | nil => rfl
  | cons m rest ih =>
    obtain ⟨other, value⟩ := m
    obtain ⟨hother, hrest⟩ := List.forall_mem_cons.1 heq
    rw [spelt?_cons, get?, ih hrest]
    dsimp only at hother ⊢
    rw [hother]

end Members

namespace Settings

open Members

namespace Value

/-- Whether a value is a table. -/
def isTable : Value → Bool
  | table .. => true
  | _ => false

theorem isTable_iff {v : Value} : v.isTable = true ↔ ∃ members file, v = table members file := by
  cases v <;> simp [isTable]

/-! ## A value set onto another -/

/-- What lies under a name after a value was set there, if `old` lay there before. -/
def onto (old : Option Value) : Value → Value
  | datum d file => datum d file
  | list items file => list items file
  | table incoming _ =>
    match old with
    | some (table members file) => table (assignAll incoming members) file
    | none => table (assignAll incoming []) none
    | some other => if incoming.isEmpty then other else table (assignAll incoming []) none

theorem onto_of_not_table {v : Value} (h : v.isTable = false) (old : Option Value) :
    onto old v = v := by
  cases v with
  | table members file => simp [isTable] at h
  | _ => rfl

/-- An assignment puts something under the name, unless an empty table changes nothing. -/
theorem assign_eq_or (name : Text) (v : Value) (members : List (Text × Value)) :
    assign name v members = members ∨
      ∃ w, assign name v members = put (Text.lower name) w members := by
  cases v with
  | datum d file => exact Or.inr ⟨_, by rw [assign]⟩
  | list items file => exact Or.inr ⟨_, by rw [assign]⟩
  | table incoming file =>
    rw [assign]
    split
    · exact Or.inr ⟨_, rfl⟩
    · exact Or.inr ⟨_, rfl⟩
    · split
      · exact Or.inl rfl
      · exact Or.inr ⟨_, rfl⟩

/-- To assign a value is to put it onto what is there. -/
theorem get?_assign (name other : Text) (v : Value) (members : List (Text × Value)) :
    get? other (assign name v members) =
      if Text.lower name = other then some (onto (get? other members) v)
      else get? other members := by
  by_cases h : Text.lower name = other
  · subst h
    rw [if_pos rfl]
    cases v with
    | datum d file => simp [assign, onto]
    | list items file => simp [assign, onto]
    | table incoming file =>
      cases hold : get? (Text.lower name) members with
      | none => simp [assign, onto, hold]
      | some old =>
        cases old with
        | table old file => simp [assign, onto, hold]
        | _ => cases incoming <;> simp [assign, onto, hold]
  · rw [if_neg h]
    obtain heq | ⟨w, heq⟩ := assign_eq_or name v members
    · rw [heq]
    · rw [heq, get?_put_of_ne _ _ (Ne.symm h)]

/-- If the names are distinct, each member goes onto what was there before all of them. -/
theorem get?_assignAll {incoming : List (Text × Value)} (h : Distinct incoming) (name : Text)
    (members : List (Text × Value)) :
    get? name (assignAll incoming members) =
      match spelt? name incoming with
      | some v => some (onto (get? name members) v)
      | none => get? name members := by
  induction incoming generalizing members with
  | nil => simp [assignAll, spelt?]
  | cons m rest ih =>
    obtain ⟨other, v⟩ := m
    obtain ⟨hnot, hrest⟩ := List.nodup_cons.1 h
    rw [assignAll, ih hrest, spelt?_cons, get?_assign]
    by_cases hname : Text.lower other = name
    · have hnone : spelt? name rest = none := by
        rw [spelt?, Option.map_eq_none_iff, List.find?_eq_none]
        intro m hm heq
        refine hnot (List.mem_map.2 ⟨m, hm, ?_⟩)
        simpa [hname] using heq
      simp [hname, hnone]
    · simp [hname]

/-! ## Names after an assignment -/

theorem lowered_assignAll (incoming : List (Text × Value)) {members : List (Text × Value)}
    (h : Lowered members) : Lowered (assignAll incoming members) := by
  induction incoming generalizing members with
  | nil => simpa [assignAll] using h
  | cons m rest ih =>
    obtain ⟨name, v⟩ := m
    rw [assignAll]
    refine ih ?_
    obtain heq | ⟨w, heq⟩ := assign_eq_or name v members
    · rwa [heq]
    · rw [heq]
      exact h.put name w

/-- The names after an assignment are those that were there and those that are set. -/
theorem mem_names_assignAll {incoming members : List (Text × Value)} {name : Text}
    (h : name ∈ (assignAll incoming members).map Prod.fst) :
    name ∈ members.map Prod.fst ∨ ∃ other ∈ incoming.map Prod.fst, name = Text.lower other := by
  induction incoming generalizing members with
  | nil => exact Or.inl (by simpa [assignAll] using h)
  | cons m rest ih =>
    obtain ⟨key, v⟩ := m
    rw [assignAll] at h
    rcases ih h with h | ⟨other, hother, hname⟩
    · obtain heq | ⟨w, heq⟩ := assign_eq_or key v members
      · exact Or.inl (heq ▸ h)
      · rw [heq, map_fst_put] at h
        split at h
        · exact Or.inl h
        · rcases List.mem_append.1 h with h | h
          · exact Or.inl h
          · exact Or.inr ⟨key, by simp, List.mem_singleton.1 h⟩
    · exact Or.inr ⟨other, by simp [hother], hname⟩

end Value

/-! ## Plain names -/

/-- A name that is a path of one step. -/
def PlainName (name : Text) : Prop := name ≠ [] ∧ ∀ c ∈ name, Path.isIdentifierChar c = true

instance (name : Text) : Decidable (PlainName name) :=
  decidable_of_iff (name ≠ [] ∧ name.all Path.isIdentifierChar = true) (by simp [PlainName])

theorem toNat_lt_of_isIdentifierChar {c : Char} (h : Path.isIdentifierChar c = true) :
    c.toNat < 128 := by
  have hascii : ∀ d : Char, d.toNat < 128 → c.val ≤ d.val → c.toNat < 128 := fun d hd hle =>
    Nat.lt_of_le_of_lt (UInt32.le_iff_toNat_le.1 hle) hd
  have hranges : (decide (c.val ≥ 'A'.val ∧ c.val ≤ 'Z'.val) ||
      (c.val ≥ 'a'.val && c.val ≤ 'z'.val) || (c.val ≥ '0'.val && c.val ≤ '9'.val) ||
      c = ' ' || c = '_' || c = '-') = true := h
  simp only [Bool.or_eq_true, Bool.and_eq_true, decide_eq_true_eq] at hranges
  rcases hranges with ((((h | h) | h) | rfl) | rfl) | rfl
  · exact hascii 'Z' (by decide) h.2
  · exact hascii 'z' (by decide) h.2
  · exact hascii '9' (by decide) h.2
  all_goals decide

/-- A letter is part of an identifier in either case. -/
theorem isIdentifierChar_toLower (c : Char) :
    Path.isIdentifierChar c.toLower = Path.isIdentifierChar c := by
  by_cases hc : c.toNat < 128
  · exact Text.of_ascii (P := fun c => Path.isIdentifierChar c.toLower = Path.isIdentifierChar c)
      hc (by decide +kernel)
  · rw [Text.toLower_of_not_ascii hc]

/-- The letters of a plain name are lowered one by one. -/
theorem PlainName.lower_eq {name : Text} (h : PlainName name) :
    Text.lower name = name.map Char.toLower :=
  Text.lower_eq_map_toLower fun c hc => toNat_lt_of_isIdentifierChar (h.2 c hc)

theorem plainName_map_toLower_iff {name : Text} :
    PlainName (name.map Char.toLower) ↔ PlainName name := by
  simp [PlainName, isIdentifierChar_toLower]

theorem PlainName.lower {name : Text} (h : PlainName name) : PlainName (Text.lower name) := by
  rw [h.lower_eq]
  exact plainName_map_toLower_iff.2 h

/-- A plain name is read as an identifier up to the first character that cannot be in one. -/
theorem identifier?_append {name : Text} (h : PlainName name) (rest : Text)
    (hrest : ∀ c ∈ rest.head?, Path.isIdentifierChar c = false) :
    Path.identifier? (name ++ rest) = some (name, rest) := by
  obtain ⟨htake, hdrop⟩ := Token.takeWhile_dropWhile_append h.2 hrest
  rw [Path.identifier?, htake, hdrop]
  cases name with
  | nil => exact absurd rfl h.1
  | cons c name => rfl

theorem identifier?_eq {name : Text} (h : PlainName name) :
    Path.identifier? name = some (name, []) := by
  simpa using identifier?_append h [] (by simp)

/-- A plain name is a path of one step. -/
theorem parse_of_plainName {name : Text} (h : PlainName name) :
    Path.parse name = .ok [.member name] := by
  rw [Path.parse, identifier?_eq h]
  rfl

/-- A layer with plain names is set member by member. -/
theorem layer_eq_assignAll {incoming : List (Text × Value)}
    (h : ∀ name ∈ incoming.map Prod.fst, PlainName name) (members : List (Text × Value)) :
    layer incoming members = Value.assignAll incoming members := by
  induction incoming generalizing members with
  | nil => rfl
  | cons m rest ih =>
    obtain ⟨name, v⟩ := m
    obtain ⟨hname, hrest⟩ := List.forall_mem_cons.1 h
    rw [Value.assignAll, ← ih hrest, layer, List.foldl_cons, ← layer]
    dsimp only at hname ⊢
    rw [parse_of_plainName hname]
    rfl

end Settings

end Rulebook
