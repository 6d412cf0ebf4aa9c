import Mathlib.Data.List.Perm.Basic
import Rulebook.Proofs.SectionMerge

/-!
# Members in another order

In which order the members of tables are gone through makes no difference where no two names in a
table are the same up to the case of letters. What was plain is plain in every order
(`plain_arrange_iff`), and gives the same settings (`Plain.given?_arrange`). Nor does it make a
difference in which order parts of a table are read, as long as all of them can be read
(`Order.first_eq_ok_iff`); if not, what is reported is one of the parts that cannot
(`Order.exists_of_first_eq_error`).
-/

namespace Rulebook

/-! ## What is found under a key -/

section

variable {α κ : Type} [DecidableEq κ] {key : α → κ} {l l' : List α}

/-- Under distinct keys a lookup finds what is there, wherever it stands. -/
theorem find?_key_eq_some_iff (h : (l.map key).Nodup) {k : κ} {a : α} :
    l.find? (fun b => key b = k) = some a ↔ a ∈ l ∧ key a = k := by
  constructor
  · intro hfind
    have hkey := List.find?_some hfind
    exact ⟨List.mem_of_find?_eq_some hfind, of_decide_eq_true hkey⟩
  · rintro ⟨ha, rfl⟩
    cases hfind : l.find? (fun b => key b = key a) with
    | none => simpa using List.find?_eq_none.1 hfind a ha
    | some b =>
      have hkey := List.find?_some hfind
      rw [List.inj_on_of_nodup_map h (List.mem_of_find?_eq_some hfind) ha (of_decide_eq_true hkey)]

/-- If no two keys are the same, what is found under a key does not depend on the order. -/
theorem find?_key_congr (h : (l.map key).Nodup) (hperm : l'.Perm l) (k : κ) :
    l'.find? (fun b => key b = k) = l.find? (fun b => key b = k) := by
  refine Option.ext fun a => ?_
  rw [find?_key_eq_some_iff h, find?_key_eq_some_iff ((hperm.map key).nodup_iff.2 h),
    hperm.mem_iff]

end

namespace Members

variable {α : Type} {members incoming : List (Text × α)}

theorem distinct_congr (h : incoming.Perm members) : Distinct incoming ↔ Distinct members :=
  (h.map _).nodup_iff

/-- What distinct names give does not depend on their order. -/
theorem spelt?_congr (hd : Distinct members) (h : incoming.Perm members) (name : Text) :
    spelt? name incoming = spelt? name members :=
  congrArg (Option.map Prod.snd) (find?_key_congr hd h name)

end Members

namespace Settings

open Members Value

namespace Order

variable {o : Order} {around : List Text} {members : List (Text × Value)}

/-! ## Tables in order -/

theorem arrangeEach_eq_map (o : Order) (around : List Text) (members : List (Text × Value)) :
    o.arrangeEach around members =
      members.map fun m => (m.1, o.arrangeValue (m.1 :: around) m.2) := by
  induction members with
  | nil => rw [arrangeEach, List.map_nil]
  | cons m rest ih =>
    obtain ⟨name, v⟩ := m
    rw [arrangeEach, List.map_cons, ih]

/-- Only a table can be rearranged. -/
theorem arrangeValue_of_not_table {v : Value} (h : v.isTable = false) (o : Order)
    (around : List Text) : o.arrangeValue around v = v := by
  cases v with
  | table members file => simp [isTable] at h
  | _ => rw [arrangeValue]

@[simp] theorem isTable_arrangeValue (o : Order) (around : List Text) (v : Value) :
    (o.arrangeValue around v).isTable = v.isTable := by
  cases v with
  | table members file => rw [arrangeValue_table]; rfl
  | _ => rw [arrangeValue]

/-- The members in order are the members, each with its value in order. -/
theorem perm_arrangeIn (o : Order) (around : List Text) (members : List (Text × Value)) :
    (o.arrangeIn around members).Perm
      (members.map fun m => (m.1, o.arrangeValue (m.1 :: around) m.2)) := by
  rw [arrangeIn, ← arrangeEach_eq_map]
  exact perm_byRank _ _

theorem perm_names_arrangeIn (o : Order) (around : List Text) (members : List (Text × Value)) :
    ((o.arrangeIn around members).map Prod.fst).Perm (members.map Prod.fst) := by
  simpa only [List.map_map, Function.comp_def] using (o.perm_arrangeIn around members).map Prod.fst

theorem distinct_map_iff {f : Text × Value → Value} :
    Distinct (members.map fun m => (m.1, f m)) ↔ Distinct members := by
  rw [Distinct, Distinct, List.map_map]
  rfl

theorem distinct_arrangeIn_iff : Distinct (o.arrangeIn around members) ↔ Distinct members :=
  (distinct_congr (o.perm_arrangeIn around members)).trans distinct_map_iff

/-- Under a name there is what was there, in order. -/
theorem spelt?_arrangeIn (h : Distinct members) (name : Text) :
    spelt? name (o.arrangeIn around members) =
      (members.find? fun m => Text.lower m.1 = name).map
        fun m => o.arrangeValue (m.1 :: around) m.2 := by
  rw [spelt?_congr (distinct_map_iff.2 h) (o.perm_arrangeIn around members), spelt?,
    List.find?_map, Option.map_map]
  rfl

/-- Distinct names give the values that they gave, with the tables in them rearranged. -/
theorem exists_spelt?_arrangeIn (h : Distinct members) (name : Text) : ∃ inner,
    spelt? name (o.arrangeIn around members) =
      (spelt? name members).map (o.arrangeValue inner) := by
  rw [spelt?_arrangeIn h, spelt?]
  cases members.find? fun m => Text.lower m.1 = name with
  | none => exact ⟨[], rfl⟩
  | some m => exact ⟨m.1 :: around, rfl⟩

/-- The table of a section is in order as well. -/
theorem exists_membersIn_arrange (h : Distinct members) (part : Section) : ∃ inner,
    part.membersIn (o.arrange members) = o.arrangeIn inner (part.membersIn members) := by
  obtain ⟨inner, hinner⟩ := exists_spelt?_arrangeIn h part.name
  refine ⟨inner, ?_⟩
  rw [Section.membersIn, arrange, hinner, Section.membersIn]
  cases spelt? part.name members with
  | none => rfl
  | some v =>
    cases v with
    | table members file => rw [Option.map_some, arrangeValue_table]
    | _ => rw [Option.map_some, arrangeValue]; rfl

end Order

/-! ## Plain members in order -/

variable {members : List (Text × Value)}

/-- In order, members give the setting that they gave, in order. -/
theorem Setting.exists_given?_arrange (s : Setting) (o : Order) (h : Distinct members)
    (hsection : Distinct (s.part.membersIn members)) : ∃ inner,
      s.given? (o.arrange members) = (s.given? members).map (o.arrangeValue inner) := by
  obtain ⟨around, hmembers⟩ := Order.exists_membersIn_arrange h s.part
  rw [Setting.given?, hmembers]
  exact Order.exists_spelt?_arrangeIn hsection s.field

/-- What is plain is plain in any order. -/
theorem plain_arrange_iff {o : Order} : Plain (o.arrange members) ↔ Plain members := by
  have hnames : (∀ name ∈ (o.arrange members).map Prod.fst, PlainName name) ↔
      ∀ name ∈ members.map Prod.fst, PlainName name := by
    simp only [Order.arrange, (o.perm_names_arrangeIn [] members).mem_iff]
  have hdistinct : Distinct (o.arrange members) ↔ Distinct members := Order.distinct_arrangeIn_iff
  rw [plain_iff, plain_iff, hnames, hdistinct]
  refine and_congr_right fun _ => and_congr_right fun h =>
    and_congr (forall_congr' fun part => ?_) ?_
  · obtain ⟨inner, hspelt⟩ := Order.exists_spelt?_arrangeIn h part.name
    rw [Order.arrange, hspelt]
    simp
  have hsection : (∀ part : Section, Distinct (part.membersIn (o.arrange members))) ↔
      ∀ part : Section, Distinct (part.membersIn members) := by
    refine forall_congr' fun part => ?_
    obtain ⟨inner, hmembers⟩ := Order.exists_membersIn_arrange h part
    rw [hmembers, Order.distinct_arrangeIn_iff]
  rw [hsection]
  refine and_congr_right fun hsection => forall_congr' fun s => ?_
  obtain ⟨inner, hgiven⟩ := s.exists_given?_arrange o h (hsection s.part)
  rw [hgiven]
  simp

theorem Plain.arrange (h : Plain members) (o : Order) : Plain (o.arrange members) :=
  plain_arrange_iff.2 h

/-- Plain members give the same settings in any order. -/
theorem Plain.given?_arrange (h : Plain members) (o : Order) (s : Setting) :
    s.given? (o.arrange members) = s.given? members := by
  obtain ⟨inner, hgiven⟩ := s.exists_given?_arrange o h.distinct (h.distinct_section s.part)
  have hnot := h.not_table s
  rw [hgiven]
  cases hv : s.given? members with
  | none => rfl
  | some v => exact congrArg some (Order.arrangeValue_of_not_table (hnot v hv) o inner)

/-! ## Parts read in order -/

namespace Order

variable {o : Order} {around : List Text} {readings : List (Text × Except Error Unit)}

theorem forM_eq_ok_iff : readings.forM Prod.snd = .ok () ↔ ∀ r ∈ readings, r.2 = .ok () := by
  induction readings with
  | nil => simp [pure, Except.pure]
  | cons r rest ih =>
    rw [List.forall_mem_cons, ← ih]
    obtain ⟨name, result⟩ := r
    cases result with
    | error e => simp [bind, Except.bind]
    | ok _ => exact (and_iff_right rfl).symm

theorem exists_of_forM_eq_error {e : Error} (h : readings.forM Prod.snd = .error e) :
    ∃ r ∈ readings, r.2 = .error e := by
  induction readings with
  | nil => simp [pure, Except.pure] at h
  | cons r rest ih =>
    obtain ⟨name, result⟩ := r
    cases result with
    | error e' => exact ⟨_, List.mem_cons_self, h⟩
    | ok _ =>
      obtain ⟨r, hr, he⟩ := ih h
      exact ⟨r, List.mem_cons_of_mem _ hr, he⟩

/-- In whatever order parts are read, all can be read or not. -/
theorem first_eq_ok_iff {u : Unit} :
    o.first around readings = .ok u ↔ ∀ r ∈ readings, r.2 = .ok () := by
  rw [first, forM_eq_ok_iff]
  simp only [(perm_byRank _ readings).mem_iff]

/-- What is reported is one of the parts that cannot be read. -/
theorem exists_of_first_eq_error {e : Error} (h : o.first around readings = .error e) :
    ∃ r ∈ readings, r.2 = .error e := by
  obtain ⟨r, hr, he⟩ := exists_of_forM_eq_error h
  exact ⟨r, (perm_byRank _ readings).mem_iff.1 hr, he⟩

end Order

end Settings

end Rulebook
