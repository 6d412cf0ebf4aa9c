import Rulebook.Settings.Error

/-!
# The order of members

The members of a table stand in no order of their own. Whoever goes through them comes by them in
some order, another one in another table and in another run, and where that makes a difference
there is no telling which it will be. An `Order` says for one pass over values in which order each
table is gone through, by a rank for every name; `Order.arrange` puts members in that order, and
`Order.first` reads parts of a table in it, so that the first one that fails is what is reported.
-/

namespace Rulebook.Settings

/-! ## Lists by rank -/

section ByRank

variable {α β : Type}

/-- The item put before the first one that has no lesser rank. -/
def insertByRank (rank : α → Nat) (a : α) : List α → List α
  | [] => [a]
  | b :: l => if rank b < rank a then b :: insertByRank rank a l else a :: b :: l

/-- The items by increasing rank, those of the same rank as they stand. -/
def byRank (rank : α → Nat) (l : List α) : List α := l.foldr (insertByRank rank) []

theorem perm_insertByRank (rank : α → Nat) (a : α) : ∀ l, (insertByRank rank a l).Perm (a :: l)
  | [] => .refl _
  | b :: l => by
    rw [insertByRank]
    split
    · exact ((perm_insertByRank rank a l).cons b).trans (.swap a b l)
    · exact .refl _

/-- What is put in the order of ranks is rearranged, no more. -/
theorem perm_byRank (rank : α → Nat) : ∀ l, (byRank rank l).Perm l
  | [] => .refl _
  | a :: l => (perm_insertByRank rank a _).trans ((perm_byRank rank l).cons a)

theorem insertByRank_map (rank : β → Nat) (f : α → β) (a : α) : ∀ l,
    insertByRank rank (f a) (l.map f) = (insertByRank (rank ∘ f) a l).map f
  | [] => rfl
  | b :: l => by
    rw [List.map_cons, insertByRank, insertByRank, insertByRank_map rank f a l, Function.comp_apply,
      Function.comp_apply]
    split <;> rfl

/-- Elements can be mapped before or after they are put in the order of ranks. -/
theorem byRank_map (rank : β → Nat) (f : α → β) : ∀ l,
    byRank rank (l.map f) = (byRank (rank ∘ f) l).map f
  | [] => rfl
  | a :: l => by
    have ih := byRank_map rank f l
    rw [byRank] at ih ⊢
    rw [List.map_cons, List.foldr_cons, ih, insertByRank_map]
    rfl

end ByRank

/-! ## Orders -/

/-- The order in which the tables in a value are gone through : a rank for each name in a table, by
the names of the tables around, the innermost first. -/
structure Order where
  rank : List Text → Text → Nat

namespace Order

/-- The order in which members are written. -/
def asWritten : Order := ⟨fun _ _ => 0⟩

mutual

/-- The value with the members of its tables in order. A list is not gone through. -/
def arrangeValue (o : Order) (around : List Text) : Value → Value
  | .datum d file => .datum d file
  | .list items file => .list items file
  | .table members file =>
    .table (byRank (fun m => o.rank around m.1) (o.arrangeEach around members)) file

/-- The members as they stand, each with its value in order. -/
def arrangeEach (o : Order) (around : List Text) : List (Text × Value) → List (Text × Value)
  | [] => []
  | (name, v) :: rest => (name, o.arrangeValue (name :: around) v) :: o.arrangeEach around rest

end

/-- The members of a table inside others in order, and those in their tables. -/
def arrangeIn (o : Order) (around : List Text) (members : List (Text × Value)) :
    List (Text × Value) :=
  byRank (fun m => o.rank around m.1) (o.arrangeEach around members)

theorem arrangeValue_table (o : Order) (around : List Text) (members : List (Text × Value))
    (file : Option Path) :
    o.arrangeValue around (.table members file) = .table (o.arrangeIn around members) file := by
  rw [arrangeValue, arrangeIn]

/-- The members in order, and those in their tables. -/
def arrange (o : Order) (members : List (Text × Value)) : List (Text × Value) :=
  o.arrangeIn [] members

/-- Reads the members of one table, each by its name, in the order in which they are come by. What
is read counts elsewhere : this says whether all can be read, and if not, what is reported. -/
def first (o : Order) (around : List Text) (readings : List (Text × Except Error Unit)) :
    Except Error Unit :=
  (byRank (fun r => o.rank around r.1) readings).forM Prod.snd

end Order

end Rulebook.Settings
