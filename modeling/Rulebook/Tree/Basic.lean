import Rulebook.Path

/-!
# File trees

A tree is a list of entries, each at the place where it lies : a file with its bytes, a
symbolic link with its target, or a directory. A place is the list of names that lead to
it from the top, the last one first; the top is a directory. What counts is the view
`Tree.get?`, the entry at a place (`get?_put_self`, `get?_put_of_ne`). `Tree.names` lists a
directory (`mem_names`) in increasing order of the bytes.

Whoever asks may list every directory, follow every link and read every file, and there are no
entries of other kinds, such as pipes. What can go wrong when a file is written is told by the
device that takes it (`Tree.Device`).
-/

namespace Rulebook

/-- The names that lead to an entry, from the entry up to the top. -/
abbrev Place := List Name

/-- What lies at a place. -/
inductive Entry where
  | file (contents : ByteArray)
  | link (target : Path)
  | directory

instance : DecidableEq Entry
  | .file a, .file b =>
    match ByteArray.instDecidableEq a b with
    | isTrue h => isTrue (by rw [h])
    | isFalse h => isFalse fun heq => h (Entry.file.inj heq)
  | .link a, .link b =>
    if h : a = b then isTrue (by rw [h]) else isFalse fun heq => h (Entry.link.inj heq)
  | .directory, .directory => isTrue rfl
  | .file _, .link _ | .file _, .directory | .link _, .file _ | .link _, .directory
  | .directory, .file _ | .directory, .link _ => isFalse nofun

/-- Entries by their places, and the place of the working directory. -/
structure Tree where
  entries : List (Place × Entry)
  home : Place

namespace Tree

/-- A tree with nothing but its top, which is the working directory. -/
def empty : Tree := ⟨[], []⟩

/-- The entry at a place. -/
def get? (t : Tree) (p : Place) : Option Entry :=
  match p with
  | [] => some .directory
  | p => (t.entries.find? fun e => e.1 = p).map Prod.snd

/-- The tree with an entry put at a place, where it replaces what was there. -/
def put (t : Tree) (p : Place) (e : Entry) : Tree :=
  { t with entries := (p, e) :: t.entries.filter fun old => old.1 ≠ p }

theorem get?_put_self (t : Tree) {p : Place} (e : Entry) (h : p ≠ []) :
    (t.put p e).get? p = some e := by
  cases p with
  | nil => exact absurd rfl h
  | cons n p => simp [get?, put]

theorem get?_put_of_ne (t : Tree) {p q : Place} (e : Entry) (h : q ≠ p) :
    (t.put p e).get? q = t.get? q := by
  cases q with
  | nil => rfl
  | cons n q =>
    simp only [get?, put, List.find?_cons, Ne.symm h, decide_false, List.find?_filter]
    congr 2
    funext old
    by_cases hq : old.1 = n :: q <;> simp [hq, h]

/-- An entry is listed at its place. -/
theorem mem_of_get? {t : Tree} {p : Place} {e : Entry} (hp : p ≠ []) (h : t.get? p = some e) :
    (p, e) ∈ t.entries := by
  cases p with
  | nil => exact absurd rfl hp
  | cons n p =>
    obtain ⟨⟨q, e'⟩, hfind, rfl⟩ := Option.map_eq_some_iff.1 h
    have hq := List.find?_some hfind
    simp only [decide_eq_true_eq] at hq
    subst hq
    exact List.mem_of_find?_eq_some hfind

/-! ## Listing a directory -/

/-- A name put into an increasing list, unless it is there. -/
def insertName (name : Name) : List Name → List Name
  | [] => [name]
  | other :: rest =>
    if name < other then name :: other :: rest
    else if name = other then other :: rest
    else other :: insertName name rest

/-- The names of the entries in a directory, in increasing order and each once. -/
def names (t : Tree) (directory : Place) : List Name :=
  t.entries.foldr
    (fun (p, _) found =>
      match p with
      | name :: parent => if parent = directory then insertName name found else found
      | [] => found)
    []

theorem mem_insertName {a name : Name} {l : List Name} :
    a ∈ insertName name l ↔ a = name ∨ a ∈ l := by
  induction l with
  | nil => simp [insertName]
  | cons other rest ih =>
    unfold insertName
    split
    · simp
    · split
      · next h => simp [h]
      · simp [ih, or_left_comm]

/-- A directory lists exactly the names at which it has entries. -/
theorem mem_names {t : Tree} {directory : Place} {name : Name} :
    name ∈ t.names directory ↔ (t.get? (name :: directory)).isSome := by
  have key : ∀ entries : List (Place × Entry),
      name ∈ Tree.names ⟨entries, t.home⟩ directory ↔
        ∃ e, (name :: directory, e) ∈ entries := by
    intro entries
    induction entries with
    | nil => simp [names]
    | cons entry rest ih =>
      obtain ⟨p, e⟩ := entry
      simp only [names, List.foldr_cons, List.mem_cons, Prod.mk.injEq] at ih ⊢
      cases p with
      | nil => simpa using ih
      | cons n parent =>
        by_cases h : parent = directory
        · subst h
          simp only [if_true, mem_insertName, List.cons.injEq, and_true]
          rw [ih]
          constructor
          · rintro (rfl | ⟨e', he'⟩)
            · exact ⟨e, Or.inl ⟨rfl, rfl⟩⟩
            · exact ⟨e', Or.inr he'⟩
          · rintro ⟨e', ⟨rfl, -⟩ | he'⟩
            · exact Or.inl rfl
            · exact Or.inr ⟨e', he'⟩
        · simp only [if_neg h, List.cons.injEq, Ne.symm h, and_false, false_and, false_or]
          exact ih
  rw [key t.entries]
  simp only [get?, Option.isSome_map, List.find?_isSome, decide_eq_true_eq, Prod.exists]
  constructor
  · rintro ⟨e, he⟩
    exact ⟨_, e, he, rfl⟩
  · rintro ⟨_, e, he, rfl⟩
    exact ⟨e, he⟩

/-! ## Files -/

/-- The regular files of `after` that `before` does not have with the same bytes. -/
def changedFiles (before after : Tree) : List (Place × ByteArray) :=
  after.entries.filterMap fun (p, e) =>
    match e with
    | .file contents => if before.get? p = some e then none else some (p, contents)
    | _ => none

end Tree

end Rulebook
