import Mathlib.Data.Fintype.Basic
import Rulebook.Proofs.Assignment

/-!
# Layers of settings, setting by setting

Of what layers give, only the five settings count, and a setting is found by the names of its
section and its field, whatever the case of their letters (`Setting.given?`). One layer over others
leaves each setting as the layer gives it or else as it was (`given?_layer`), so after all layers
the last one that gives a setting wins (`foldl_layer`). What was put together has names in
lower case (`Merged`) and is a layer itself, one that gives the same settings.
-/

namespace Rulebook.Settings

open Members Value

/-! ## The five settings -/

/-- What can be set. -/
inductive Setting where
  | extension
  | followLinks
  | resetCursorPerFile
  | path
  | indent
  deriving DecidableEq, Repr

instance : Fintype Section :=
  ⟨{.source, .parsing, .output}, fun part => by cases part <;> decide⟩

instance : Fintype Setting :=
  ⟨{.extension, .followLinks, .resetCursorPerFile, .path, .indent}, fun s => by cases s <;> decide⟩

namespace Setting

/-- The section that the setting is in. -/
def part : Setting → Section
  | extension | followLinks => .source
  | resetCursorPerFile => .parsing
  | path | indent => .output

/-- The name of the setting in its section. -/
def field : Setting → Text
  | extension => "extension".toList
  | followLinks => "follow_links".toList
  | resetCursorPerFile => "reset_cursor_per_file".toList
  | path => "path".toList
  | indent => "indent".toList

/-- The full name of the setting. -/
def key (s : Setting) : Text := s.part.name ++ '.' :: s.field

/-- The value of the setting where nothing else gives one. -/
def byDefault : Setting → Value
  | extension => .datum (.string "bnf".toList) none
  | followLinks => .datum (.boolean false) none
  | resetCursorPerFile => .datum (.boolean true) none
  | path => .datum (.string "grammar.json".toList) none
  | indent => .datum (.integer 4) none

end Setting

/-- The members of the section's table among other members, if they have one. -/
def Section.membersIn (part : Section) (members : List (Text × Value)) : List (Text × Value) :=
  match spelt? part.name members with
  | some (.table inner _) => inner
  | _ => []

/-- The value that members give for the setting, whatever the case of the letters in its names. -/
def Setting.given? (s : Setting) (members : List (Text × Value)) : Option Value :=
  spelt? s.field (s.part.membersIn members)

/-- What a layer gives is plain : the names at its top are paths of one step, no two names are the
same up to the case of letters where settings are found, the sections are tables, and the settings
are none. -/
structure Plain (members : List (Text × Value)) : Prop where
  plainName : ∀ name ∈ members.map Prod.fst, PlainName name
  distinct : Distinct members
  table : ∀ part : Section, ∀ v ∈ spelt? part.name members, v.isTable = true
  distinct_section : ∀ part : Section, Distinct (part.membersIn members)
  not_table : ∀ s : Setting, ∀ v ∈ s.given? members, v.isTable = false

/-- Members are plain if their names are plain and differ, the sections are tables of names that
differ, and no setting is a table. -/
theorem plain_iff {members : List (Text × Value)} : Plain members ↔
    (∀ name ∈ members.map Prod.fst, PlainName name) ∧ Distinct members ∧
      (∀ part : Section, ∀ v ∈ spelt? part.name members, v.isTable = true) ∧
      (∀ part : Section, Distinct (part.membersIn members)) ∧
      ∀ s : Setting, ∀ v ∈ s.given? members, v.isTable = false :=
  ⟨fun ⟨h₁, h₂, h₃, h₄, h₅⟩ => ⟨h₁, h₂, h₃, h₄, h₅⟩,
    fun ⟨h₁, h₂, h₃, h₄, h₅⟩ => ⟨h₁, h₂, h₃, h₄, h₅⟩⟩

instance (members : List (Text × Value)) : Decidable (Plain members) :=
  decidable_of_iff _ plain_iff.symm

/-- What was put together from plain layers is plain, and its names are in lower case. -/
structure Merged (members : List (Text × Value)) : Prop where
  plain : Plain members
  lowered : Lowered members
  lowered_section : ∀ part : Section, Lowered (part.membersIn members)

/-- All sections are there. -/
def Complete (members : List (Text × Value)) : Prop :=
  ∀ part : Section, ∃ inner file, get? part.name members = some (.table inner file)

theorem membersIn_of_lowered {members : List (Text × Value)} (h : Lowered members)
    (part : Section) : part.membersIn members =
      match get? part.name members with
      | some (.table inner _) => inner
      | _ => [] := by
  rw [← h.spelt?_eq]
  rfl

/-! ## One layer over others -/

section Step

variable {incoming members : List (Text × Value)}

/-- A section is there if the layer gives it or if it was there, and then holds what was there and
over it what the layer gives. -/
theorem get?_section_assignAll (h : Plain incoming) (hm : Merged members) (part : Section) :
    (spelt? part.name incoming = none ∧ get? part.name members = none ∧
      get? part.name (assignAll incoming members) = none) ∨
    ∃ file, get? part.name (assignAll incoming members) =
      some (.table (assignAll (part.membersIn incoming) (part.membersIn members)) file) := by
  rw [get?_assignAll h.distinct, membersIn_of_lowered hm.lowered, Section.membersIn]
  cases hgiven : spelt? part.name incoming with
  | none =>
    cases hget : get? part.name members with
    | none => exact Or.inl ⟨rfl, rfl, rfl⟩
    | some old =>
      obtain ⟨inner, file, rfl⟩ :=
        isTable_iff.1 (hm.plain.table part old (hm.lowered.spelt?_eq _ ▸ hget))
      exact Or.inr ⟨file, by rw [assignAll]⟩
  | some v =>
    obtain ⟨new, newFile, rfl⟩ := isTable_iff.1 (h.table part v hgiven)
    cases hget : get? part.name members with
    | none => exact Or.inr ⟨none, rfl⟩
    | some old =>
      obtain ⟨inner, file, rfl⟩ :=
        isTable_iff.1 (hm.plain.table part old (hm.lowered.spelt?_eq _ ▸ hget))
      exact Or.inr ⟨file, rfl⟩

/-- Plain members are set section by section. -/
theorem membersIn_assignAll (h : Plain incoming) (hm : Merged members) (part : Section) :
    part.membersIn (assignAll incoming members) =
      assignAll (part.membersIn incoming) (part.membersIn members) := by
  have hlowered := lowered_assignAll incoming hm.lowered
  rcases get?_section_assignAll h hm part with ⟨hgiven, hget, hnone⟩ | ⟨file, hsome⟩
  · rw [← hm.lowered.spelt?_eq] at hget
    rw [← hlowered.spelt?_eq] at hnone
    simp [Section.membersIn, hgiven, hget, hnone, assignAll]
  · rw [← hlowered.spelt?_eq] at hsome
    conv => lhs; rw [Section.membersIn, hsome]

/-- A setting is as the layer gives it, or else as it was. -/
theorem given?_assignAll (h : Plain incoming) (hm : Merged members) (s : Setting) :
    s.given? (assignAll incoming members) = (s.given? incoming).or (s.given? members) := by
  have hold := hm.lowered_section s.part
  have hgiven := h.not_table s
  unfold Setting.given? at hgiven ⊢
  rw [membersIn_assignAll h hm, (lowered_assignAll _ hold).spelt?_eq,
    get?_assignAll (h.distinct_section s.part), hold.spelt?_eq]
  cases hv : spelt? s.field (s.part.membersIn incoming) with
  | none => rfl
  | some v => exact congrArg some (onto_of_not_table (hgiven v hv) _)

/-- A plain layer leaves what was put together in the same shape. -/
theorem Merged.layer (h : Plain incoming) (hm : Merged members) :
    Merged (layer incoming members) := by
  rw [layer_eq_assignAll h.plainName]
  have hlowered := lowered_assignAll incoming hm.lowered
  have hsection : ∀ part : Section, Lowered (part.membersIn (assignAll incoming members)) := by
    intro part
    rw [membersIn_assignAll h hm]
    exact lowered_assignAll _ (hm.lowered_section part)
  refine ⟨⟨fun name hname => ?_, hlowered.distinct, fun part v hv => ?_,
    fun part => (hsection part).distinct, fun s v hv => ?_⟩, hlowered, hsection⟩
  · rcases mem_names_assignAll hname with hname | ⟨other, hother, rfl⟩
    · exact hm.plain.plainName name hname
    · exact (h.plainName other hother).lower
  · rw [hlowered.spelt?_eq] at hv
    rcases get?_section_assignAll h hm part with ⟨-, -, hnone⟩ | ⟨file, hsome⟩
    · simp [hnone] at hv
    · obtain rfl := Option.some.inj (hsome.symm.trans hv)
      rfl
  · rw [given?_assignAll h hm, Option.mem_def, Option.or_eq_some_iff] at hv
    rcases hv with hv | ⟨-, hv⟩
    · exact h.not_table s v hv
    · exact hm.plain.not_table s v hv

/-- A layer that gives a setting decides it, any other leaves it. -/
theorem given?_layer (h : Plain incoming) (hm : Merged members) (s : Setting) :
    s.given? (layer incoming members) = (s.given? incoming).or (s.given? members) := by
  rw [layer_eq_assignAll h.plainName, given?_assignAll h hm]

/-- All sections are there if the layer gives them or if they were there. -/
theorem complete_layer (h : Plain incoming) (hm : Merged members)
    (hsection : ∀ part : Section,
      spelt? part.name incoming ≠ none ∨ get? part.name members ≠ none) :
    Complete (layer incoming members) := by
  intro part
  rw [layer_eq_assignAll h.plainName]
  rcases get?_section_assignAll h hm part with ⟨hgiven, hget, -⟩ | ⟨file, hsome⟩
  · rcases hsection part with hne | hne
    · exact absurd hgiven hne
    · exact absurd hget hne
  · exact ⟨_, file, hsome⟩

end Step

/-! ## All layers -/

theorem merged_nil : Merged [] := by
  have hplain : Plain [] := by
    refine ⟨by simp, List.nodup_nil, by simp [spelt?], fun part => List.nodup_nil, fun s v hv => ?_⟩
    simp [Setting.given?, Section.membersIn, spelt?] at hv
  exact ⟨hplain, lowered_nil, fun part => lowered_nil⟩

theorem lowered_of_plainName {members : List (Text × Value)} (h : (members.map Prod.fst).Nodup)
    (hname : ∀ name ∈ members.map Prod.fst, PlainName name ∧ name.map Char.toLower = name) :
    Lowered members :=
  ⟨h, fun name hmem => (hname name hmem).1.lower_eq.trans (hname name hmem).2⟩

/-- The defaults give every setting. -/
theorem complete_defaultMembers : Complete defaultMembers := by
  intro part
  cases part <;> exact ⟨_, none, rfl⟩

theorem lowered_defaultMembers : Lowered defaultMembers ∧
    ∀ part : Section, Lowered (part.membersIn defaultMembers) := by
  have hlowered : Lowered defaultMembers := lowered_of_plainName (by decide) (by decide)
  refine ⟨hlowered, fun part => ?_⟩
  rw [membersIn_of_lowered hlowered]
  refine lowered_of_plainName ?_ ?_
  · cases part <;> decide
  · cases part <;> decide

theorem given?_defaultMembers (s : Setting) : s.given? defaultMembers = some s.byDefault := by
  obtain ⟨hlowered, hsection⟩ := lowered_defaultMembers
  rw [Setting.given?, (hsection s.part).spelt?_eq, membersIn_of_lowered hlowered]
  cases s <;> rfl

/-- The defaults are in the shape that layers are put together in. -/
theorem merged_defaultMembers : Merged defaultMembers := by
  obtain ⟨hlowered, hsection⟩ := lowered_defaultMembers
  refine ⟨⟨?_, hlowered.distinct, fun part v hv => ?_, fun part => (hsection part).distinct,
    fun s v hv => ?_⟩, hlowered, hsection⟩
  · decide
  · rw [hlowered.spelt?_eq] at hv
    obtain ⟨inner, file, hget⟩ := complete_defaultMembers part
    obtain rfl := Option.some.inj (hget.symm.trans hv)
    rfl
  · rw [given?_defaultMembers] at hv
    obtain rfl := Option.some.inj hv
    cases s <;> rfl

/-- The last of the layers that gives a setting wins. -/
theorem foldl_layer {members : List (Text × Value)} (hm : Merged members) (hc : Complete members)
    (layers : List (List (Text × Value))) (h : ∀ incoming ∈ layers, Plain incoming) :
    Merged (layers.foldl (fun members incoming => layer incoming members) members) ∧
      Complete (layers.foldl (fun members incoming => layer incoming members) members) ∧
      ∀ s : Setting,
        s.given? (layers.foldl (fun members incoming => layer incoming members) members) =
          (layers.reverse.findSome? s.given?).or (s.given? members) := by
  induction layers generalizing members with
  | nil => exact ⟨hm, hc, fun s => rfl⟩
  | cons incoming rest ih =>
    obtain ⟨hincoming, hrest⟩ := List.forall_mem_cons.1 h
    have hc' : Complete (layer incoming members) := by
      refine complete_layer hincoming hm fun part => Or.inr ?_
      obtain ⟨inner, file, hget⟩ := hc part
      simp [hget]
    obtain ⟨hmerged, hcomplete, hgiven⟩ := ih (hm.layer hincoming) hc' hrest
    refine ⟨hmerged, hcomplete, fun s => ?_⟩
    rw [List.foldl_cons, hgiven, given?_layer hincoming hm, List.reverse_cons,
      List.findSome?_append, List.findSome?_singleton, Option.or_assoc]

end Rulebook.Settings
