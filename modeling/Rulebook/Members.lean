import Rulebook.Text.Basic

/-!
# Named members

Values under names, in the order in which the names came in. What counts is the view
`get?`, the value under a name; `put` changes it at one name (`get?_put_self`,
`get?_put_of_ne`), and so does `erase` (`get?_erase_self`, `get?_erase_of_ne`).
-/

namespace Rulebook.Members

variable {α : Type}

/-- The value under a name. -/
def get? (name : Text) : List (Text × α) → Option α
  | [] => none
  | (other, value) :: rest => if other = name then some value else get? name rest

/-- The members with the value under the name, in the place of the old one or at the end. -/
def put (name : Text) (value : α) : List (Text × α) → List (Text × α)
  | [] => [(name, value)]
  | (other, old) :: rest =>
    if other = name then (name, value) :: rest else (other, old) :: put name value rest

@[simp] theorem get?_put_self (name : Text) (value : α) (members : List (Text × α)) :
    get? name (put name value members) = some value := by
  induction members with
  | nil => simp [put, get?]
  | cons m rest ih =>
    obtain ⟨other, old⟩ := m
    by_cases h : other = name <;> simp [put, get?, h, ih]

theorem get?_put_of_ne {name other : Text} (value : α) (members : List (Text × α))
    (h : other ≠ name) : get? other (put name value members) = get? other members := by
  induction members with
  | nil => simp [put, get?, Ne.symm h]
  | cons m rest ih =>
    obtain ⟨key, old⟩ := m
    by_cases hk : key = name
    · subst hk
      simp [put, get?, Ne.symm h]
    · simp only [put, if_neg hk, get?, ih]

/-- The members without those under the name. -/
def erase (name : Text) (members : List (Text × α)) : List (Text × α) :=
  members.filter fun m => m.1 ≠ name

@[simp] theorem get?_erase_self (name : Text) (members : List (Text × α)) :
    get? name (erase name members) = none := by
  induction members with
  | nil => rfl
  | cons m rest ih =>
    by_cases h : m.1 = name
    · simpa [erase, h] using ih
    · simpa [erase, get?, h] using ih

theorem get?_erase_of_ne {name other : Text} (members : List (Text × α)) (h : other ≠ name) :
    get? other (erase name members) = get? other members := by
  induction members with
  | nil => rfl
  | cons m rest ih =>
    obtain ⟨key, value⟩ := m
    by_cases hk : key = name
    · subst hk
      simpa [erase, get?, Ne.symm h] using ih
    · by_cases ho : key = other
      · simp [erase, get?, ho, h]
      · simpa [erase, get?, hk, ho] using ih

end Rulebook.Members
