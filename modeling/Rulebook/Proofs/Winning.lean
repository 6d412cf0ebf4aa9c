import Mathlib
import Rulebook.Proofs.Arrangement

/-!
# The values that win

The settings are made from five values, one for each setting, and from nothing else that layers and
overrides give (`build_eq_converted`). A value wins because an override sets it, or because it is in
the last layer that gives the setting, or by default (`winning`).
-/

namespace Rulebook.Settings

open Members Value

/-! ## Layers and overrides -/

/-- The path that a layer is given by. -/
def Layer.path : Layer → Path
  | required path _ | optional path _ => path

/-- The order in which a layer is gone through. -/
def Layer.order : Layer → Order
  | required _ order | optional _ order => order

/-- The members that a layer gives, none if it fails. -/
def Layer.members (t : Tree) (l : Layer) : List (Text × Value) :=
  match l.read t with
  | .ok members => members
  | .error _ => []

/-- The layer does not fail, and what it gives is plain. -/
def Layer.IsPlain (t : Tree) (l : Layer) : Prop := ∃ members, l.read t = .ok members ∧ Plain members

/-- What a layer gives, as its file has it. -/
def Layer.given (t : Tree) : Layer → Except Error (List (Text × Value))
  | required path _ => readFile t path
  | optional path _ =>
    match readFile t path with
    | .error (.notFound _) | .error .notUtf8 => .ok []
    | result => result

/-- A layer reads what its file gives, in its order. -/
theorem Layer.read_eq (t : Tree) (l : Layer) : l.read t = l.order.arrange <$> l.given t := by
  cases l with
  | required path order => rfl
  | optional path order =>
    rw [read, given]
    cases readFile t path with
    | ok members => rfl
    | error e => cases e <;> rfl

/-- A layer gives what its file gives, or nothing. -/
theorem Layer.eq_nil_or_of_given {t : Tree} {l : Layer} {members : List (Text × Value)}
    (h : l.given t = .ok members) : members = [] ∨ readFile t l.path = .ok members := by
  cases l with
  | required path order => exact Or.inr h
  | optional path order =>
    rw [given] at h
    split at h
    · exact Or.inl (Except.ok.inj h).symm
    · exact Or.inl (Except.ok.inj h).symm
    · exact Or.inr h

theorem Layer.given_of_readFile {t : Tree} {l : Layer} {members : List (Text × Value)}
    (h : readFile t l.path = .ok members) : l.given t = .ok members := by
  cases l with
  | required path order => exact h
  | optional path order =>
    have h : readFile t path = .ok members := h
    rw [given, h]

theorem Layer.isPlain_iff {t : Tree} {l : Layer} :
    l.IsPlain t ↔ ∃ members, l.given t = .ok members ∧ Plain members := by
  rw [IsPlain, read_eq]
  cases l.given t with
  | error e => simp
  | ok members =>
    constructor
    · rintro ⟨_, hok, hplain⟩
      obtain rfl := Except.ok.inj hok
      exact ⟨members, rfl, plain_arrange_iff.1 hplain⟩
    · rintro ⟨_, hok, hplain⟩
      obtain rfl := Except.ok.inj hok
      exact ⟨_, rfl, hplain.arrange l.order⟩

/-- The settings that a plain layer gives do not depend on its order. -/
theorem Layer.given?_members {t : Tree} {l : Layer} {members : List (Text × Value)}
    (h : l.given t = .ok members) (hplain : Plain members) (s : Setting) :
    s.given? (l.members t) = s.given? members := by
  have hmembers : l.members t = l.order.arrange members := by rw [Layer.members, read_eq, h]; rfl
  rw [hmembers, hplain.given?_arrange]

/-- The value of the override of the setting, if there is one. -/
def Setting.overridden? (s : Setting) (overrides : List (Text × Value)) : Option Value :=
  (overrides.find? fun o => o.1.map Char.toLower = s.key).map Prod.snd

/-- The overrides are of settings, no two of them of the same one, and give no tables. -/
structure Targeted (overrides : List (Text × Value)) : Prop where
  target : ∀ o ∈ overrides, ∃ s : Setting, o.1.map Char.toLower = s.key
  distinct : (overrides.map fun o => o.1.map Char.toLower).Nodup
  not_table : ∀ o ∈ overrides, o.2.isTable = false

instance (overrides : List (Text × Value)) : Decidable (Targeted overrides) :=
  decidable_of_iff ((∀ o ∈ overrides, ∃ s : Setting, o.1.map Char.toLower = s.key) ∧
      (overrides.map fun o => o.1.map Char.toLower).Nodup ∧ ∀ o ∈ overrides, o.2.isTable = false)
    ⟨fun ⟨h₁, h₂, h₃⟩ => ⟨h₁, h₂, h₃⟩, fun ⟨h₁, h₂, h₃⟩ => ⟨h₁, h₂, h₃⟩⟩

/-- The value of the setting that wins over all others. -/
def winning (t : Tree) (layers : List Layer) (overrides : List (Text × Value)) (s : Setting) :
    Value :=
  ((s.overridden? overrides).or
    (layers.reverse.findSome? fun l => s.given? (l.members t))).getD s.byDefault

/-- The winning value is that of the override, else that of the last layer that gives one, else
the default. -/
theorem winning_eq (t : Tree) (layers : List Layer) (overrides : List (Text × Value))
    (s : Setting) : winning t layers overrides s = ((s.overridden? overrides).or
      ((layers.map (Layer.members t)).reverse.findSome? s.given?)).getD s.byDefault := by
  rw [← List.map_reverse, List.findSome?_map]
  rfl

/-- Layers whose files give the same as those of plain layers are plain as well, and give the same
settings. -/
theorem given?_congr {t : Tree} {layers layers' : List Layer}
    (h : layers'.map (Layer.given t) = layers.map (Layer.given t))
    (hlayers : ∀ l ∈ layers, l.IsPlain t) : (∀ l ∈ layers', l.IsPlain t) ∧
      ∀ s : Setting, layers'.map (fun l => s.given? (l.members t)) =
        layers.map fun l => s.given? (l.members t) := by
  induction layers generalizing layers' with
  | nil =>
    obtain rfl := List.map_eq_nil_iff.1 h
    exact ⟨by simp, fun _ => rfl⟩
  | cons l layers ih =>
    obtain ⟨l', layers', rfl, hgiven, hrest⟩ := List.map_eq_cons_iff.1 h
    obtain ⟨hl, hlayers⟩ := List.forall_mem_cons.1 hlayers
    obtain ⟨hplain, hsame⟩ := ih hrest hlayers
    obtain ⟨members, hok, hmembers⟩ := Layer.isPlain_iff.1 hl
    have hok' := hgiven.trans hok
    refine ⟨List.forall_mem_cons.2 ⟨Layer.isPlain_iff.2 ⟨members, hok', hmembers⟩, hplain⟩,
      fun s => ?_⟩
    rw [List.map_cons, List.map_cons, hsame, Layer.given?_members hok hmembers,
      Layer.given?_members hok' hmembers]

/-- Where the files of plain layers give the same, the same values win, in whatever orders the
layers are gone through. -/
theorem winning_congr {t : Tree} {layers layers' : List Layer}
    (h : layers'.map (Layer.given t) = layers.map (Layer.given t))
    (hlayers : ∀ l ∈ layers, l.IsPlain t) (overrides : List (Text × Value)) (s : Setting) :
    winning t layers' overrides s = winning t layers overrides s := by
  have hfind : ∀ layers : List Layer,
      layers.reverse.findSome? (fun l => s.given? (l.members t)) =
        (layers.map fun l => s.given? (l.members t)).reverse.findSome? id := fun layers => by
    rw [← List.map_reverse, List.findSome?_map]
    rfl
  rw [winning, winning, hfind, hfind, (given?_congr h hlayers).2]

/-! ## What a setting needs -/

/-- The value is a datum, and the conversion makes this of it. -/
def Value.ConvertsTo {α : Type} (v : Value) (conversion : Conversion α) (a : α) : Prop :=
  ∃ d file, v = .datum d file ∧ conversion d = .ok a

theorem Value.convert_eq_ok_iff {α : Type} {expected : Expected} {conversion : Conversion α}
    {key : Text} {v : Value} {a : α} :
    v.convert expected conversion key = .ok a ↔ v.ConvertsTo conversion a := by
  cases v with
  | datum d file =>
    cases hd : conversion d <;> simp [convert, ConvertsTo, hd]
  | _ => simp [convert, ConvertsTo]

theorem bind_eq_ok_iff {α β : Type} {x : Except Error α} {f : α → Except Error β} {b : β} :
    (do f (← x)) = .ok b ↔ ∃ a, x = .ok a ∧ f a = .ok b := by
  cases x <;> simp [bind, Except.bind]

theorem discard_eq_ok_iff {α : Type} {x : Except Error α} {u : Unit} :
    discard x = .ok u ↔ ∃ a, x = .ok a := by
  cases x <;> simp [discard, Functor.mapConst, Except.map]

section

variable (o : Order) (w : Setting → Value)

/-- The settings for the files that are read, made from one value for each. -/
def convertedSource : Except Error SourceSettings := do
  let extension := (w .extension).convert .string Datum.toText Setting.extension.key
  let followLinks := (w .followLinks).convert .boolean Datum.toBool Setting.followLinks.key
  o.first [Section.source.name] [(Setting.extension.field, discard extension),
    (Setting.followLinks.field, discard followLinks)]
  return ⟨← extension, ← followLinks⟩

/-- The settings for lines, made from their value. -/
def convertedParsing : Except Error ParsingSettings := do
  let reset :=
    (w .resetCursorPerFile).convert .boolean Datum.toBool Setting.resetCursorPerFile.key
  o.first [Section.parsing.name] [(Setting.resetCursorPerFile.field, discard reset)]
  return ⟨← reset⟩

/-- The settings for the document, made from one value for each. -/
def convertedOutput : Except Error OutputSettings := do
  let path := (w .path).convert .string Datum.toText Setting.path.key
  let indent := (w .indent).convert .integer Datum.toNat Setting.indent.key
  o.first [Section.output.name] [(Setting.path.field, discard path),
    (Setting.indent.field, discard indent)]
  return ⟨← path, ← indent⟩

/-- The settings made from one value for each. The sections and their fields are read in the order
in which they are come by, and the first that cannot be converted is reported. -/
def converted : Except Error Settings := do
  o.first [] [(Section.source.name, discard (convertedSource o w)),
    (Section.parsing.name, discard (convertedParsing o w)),
    (Section.output.name, discard (convertedOutput o w))]
  return ⟨← convertedSource o w, ← convertedParsing o w, ← convertedOutput o w⟩

end

section

variable {o : Order} {w : Setting → Value}

theorem convertedSource_eq_ok_iff {σ : SourceSettings} : convertedSource o w = .ok σ ↔
    (w .extension).ConvertsTo Datum.toText σ.extension ∧
      (w .followLinks).ConvertsTo Datum.toBool σ.followLinks := by
  simp only [convertedSource, bind_eq_ok_iff, Order.first_eq_ok_iff, List.forall_mem_cons,
    discard_eq_ok_iff, Value.convert_eq_ok_iff]
  constructor
  · rintro ⟨-, -, extension, hextension, followLinks, hfollowLinks, hσ⟩
    obtain rfl := Except.ok.inj hσ
    exact ⟨hextension, hfollowLinks⟩
  · rintro ⟨hextension, hfollowLinks⟩
    exact ⟨(), ⟨⟨_, hextension⟩, ⟨_, hfollowLinks⟩, by simp⟩, _, hextension, _, hfollowLinks, rfl⟩

theorem convertedParsing_eq_ok_iff {σ : ParsingSettings} : convertedParsing o w = .ok σ ↔
    (w .resetCursorPerFile).ConvertsTo Datum.toBool σ.resetCursorPerFile := by
  simp only [convertedParsing, bind_eq_ok_iff, Order.first_eq_ok_iff, List.forall_mem_cons,
    discard_eq_ok_iff, Value.convert_eq_ok_iff]
  constructor
  · rintro ⟨-, -, reset, hreset, hσ⟩
    obtain rfl := Except.ok.inj hσ
    exact hreset
  · intro hreset
    exact ⟨(), ⟨⟨_, hreset⟩, by simp⟩, _, hreset, rfl⟩

theorem convertedOutput_eq_ok_iff {σ : OutputSettings} : convertedOutput o w = .ok σ ↔
    (w .path).ConvertsTo Datum.toText σ.path ∧ (w .indent).ConvertsTo Datum.toNat σ.indent := by
  simp only [convertedOutput, bind_eq_ok_iff, Order.first_eq_ok_iff, List.forall_mem_cons,
    discard_eq_ok_iff, Value.convert_eq_ok_iff]
  constructor
  · rintro ⟨-, -, path, hpath, indent, hindent, hσ⟩
    obtain rfl := Except.ok.inj hσ
    exact ⟨hpath, hindent⟩
  · rintro ⟨hpath, hindent⟩
    exact ⟨(), ⟨⟨_, hpath⟩, ⟨_, hindent⟩, by simp⟩, _, hpath, _, hindent, rfl⟩

/-- The order makes no difference to whether the settings can be made, and to what they are. -/
theorem converted_eq_ok_iff {σ : Settings} :
    converted o w = .ok σ ↔
      (w .extension).ConvertsTo Datum.toText σ.source.extension ∧
      (w .followLinks).ConvertsTo Datum.toBool σ.source.followLinks ∧
      (w .resetCursorPerFile).ConvertsTo Datum.toBool σ.parsing.resetCursorPerFile ∧
      (w .path).ConvertsTo Datum.toText σ.output.path ∧
      (w .indent).ConvertsTo Datum.toNat σ.output.indent := by
  simp only [converted, bind_eq_ok_iff, Order.first_eq_ok_iff, List.forall_mem_cons,
    discard_eq_ok_iff, convertedSource_eq_ok_iff, convertedParsing_eq_ok_iff,
    convertedOutput_eq_ok_iff]
  constructor
  · rintro ⟨-, -, source, ⟨hextension, hfollowLinks⟩, parsing, hreset, output, ⟨hpath, hindent⟩, hσ⟩
    obtain rfl := Except.ok.inj hσ
    exact ⟨hextension, hfollowLinks, hreset, hpath, hindent⟩
  · rintro ⟨hextension, hfollowLinks, hreset, hpath, hindent⟩
    exact ⟨(), ⟨⟨σ.source, hextension, hfollowLinks⟩, ⟨σ.parsing, hreset⟩,
      ⟨σ.output, hpath, hindent⟩, by simp⟩, _, ⟨hextension, hfollowLinks⟩, _, hreset, _,
      ⟨hpath, hindent⟩, rfl⟩

end

/-! ## What the members of all layers give -/

/-- The value of the setting in the tables that the settings are read from. -/
def Setting.found? (s : Setting) (members : List (Text × Value)) : Option Value :=
  match get? s.part.name members with
  | some (.table inner _) => get? s.field inner
  | _ => none

/-- In merged layers a setting is found where it was given. -/
theorem Merged.found?_eq {members : List (Text × Value)} (h : Merged members) (s : Setting) :
    s.found? members = s.given? members := by
  rw [Setting.given?, (h.lowered_section s.part).spelt?_eq, membersIn_of_lowered h.lowered,
    Setting.found?]
  cases get? s.part.name members with
  | none => rfl
  | some v => cases v <;> rfl

/-- The value of a field is what the section has under its name. -/
theorem field?_eq {α : Type} (s : Setting) (index : Nat) {inner : List (Text × Value)} {v : Value}
    (file : Option Path) (expected : Expected) (conversion : Conversion α)
    (hfield : s.part.fields[index]? = some s.field) (hv : get? s.field inner = some v) :
    s.part.field? (.table inner file) index expected conversion =
      some <$> v.convert expected conversion s.key := by
  rw [Section.field?, hfield]
  dsimp only [Option.getD]
  rw [hv]
  rfl

theorem discard_map {α β : Type} (f : α → β) (x : Except Error α) :
    discard (f <$> x) = discard x := by
  cases x <;> rfl

theorem require_map_some {α β : Type} (name : Text) (x : Except Error α) (f : α → Except Error β) :
    (do f (← Section.require name (← some <$> x))) = (do f (← x)) := by
  cases x <;> rfl

section

variable {members : List (Text × Value)} {w : Setting → Value}

/-- The table of a section that is there has all settings of the section. -/
theorem get?_field_of_found? (hw : ∀ s : Setting, s.found? members = some (w s)) (s : Setting)
    {inner : List (Text × Value)} {file : Option Path}
    (h : get? s.part.name members = some (.table inner file)) :
    get? s.field inner = some (w s) := by
  have hs := hw s
  rwa [Setting.found?, h] at hs

variable (hw : ∀ s : Setting, s.found? members = some (w s)) {inner : List (Text × Value)}
  {file : Option Path} (o : Order)
include hw

/-- A section in which both settings are found is converted from them. -/
theorem readSource_eq (h : get? Section.source.name members = some (.table inner file)) :
    readSource o (.table inner file) = convertedSource o w := by
  have hextension := field?_eq .extension 0 file .string Datum.toText rfl
    (get?_field_of_found? hw .extension h)
  have hfollowLinks := field?_eq .followLinks 1 file .boolean Datum.toBool rfl
    (get?_field_of_found? hw .followLinks h)
  simp only [Setting.part] at hextension hfollowLinks
  simp only [readSource, convertedSource, hextension, hfollowLinks, discard_map, require_map_some]
  rfl

theorem readParsing_eq (h : get? Section.parsing.name members = some (.table inner file)) :
    readParsing o (.table inner file) = convertedParsing o w := by
  have hreset := field?_eq .resetCursorPerFile 0 file .boolean Datum.toBool rfl
    (get?_field_of_found? hw .resetCursorPerFile h)
  simp only [Setting.part] at hreset
  simp only [readParsing, convertedParsing, hreset, discard_map, require_map_some]
  rfl

theorem readOutput_eq (h : get? Section.output.name members = some (.table inner file)) :
    readOutput o (.table inner file) = convertedOutput o w := by
  have hpath := field?_eq .path 0 file .string Datum.toText rfl (get?_field_of_found? hw .path h)
  have hindent := field?_eq .indent 1 file .integer Datum.toNat rfl
    (get?_field_of_found? hw .indent h)
  simp only [Setting.part] at hpath hindent
  simp only [readOutput, convertedOutput, hpath, hindent, discard_map, require_map_some]
  rfl

/-- If all sections are there with all settings, the settings are made from the values found. -/
theorem ofMembers_eq_converted (hc : Complete members) : ofMembers o members = converted o w := by
  obtain ⟨source, sourceFile, hsource⟩ := hc .source
  obtain ⟨parsing, parsingFile, hparsing⟩ := hc .parsing
  obtain ⟨output, outputFile, houtput⟩ := hc .output
  have hreadSource : Section.source.read? (readSource o) members =
      some <$> convertedSource o w := by
    rw [Section.read?, hsource, ← readSource_eq hw o hsource]
  have hreadParsing : Section.parsing.read? (readParsing o) members =
      some <$> convertedParsing o w := by
    rw [Section.read?, hparsing, ← readParsing_eq hw o hparsing]
  have hreadOutput : Section.output.read? (readOutput o) members =
      some <$> convertedOutput o w := by
    rw [Section.read?, houtput, ← readOutput_eq hw o houtput]
  simp only [ofMembers, converted, hreadSource, hreadParsing, hreadOutput, discard_map,
    require_map_some]

end

/-! ## Overrides -/

theorem plainName_name (part : Section) : PlainName part.name := by
  cases part <;> decide

theorem plainName_field (s : Setting) : PlainName s.field := by
  cases s <;> decide

theorem name_injective {a b : Section} (h : a.name = b.name) : a = b := by
  cases a <;> cases b <;> first | rfl | exact absurd h (by decide)

/-- No two settings have the same key. -/
theorem key_injective {a b : Setting} (h : a.key = b.key) : a = b := by
  cases a <;> cases b <;> first | rfl | exact absurd h (by decide)

theorem eq_of_part_of_field {a b : Setting} (hpart : a.part = b.part) (hfield : a.field = b.field) :
    a = b := by
  refine key_injective ?_
  rw [Setting.key, Setting.key, hpart, hfield]

/-- The key of a setting, in whatever case, is a path of two steps to the setting. -/
theorem exists_parse_eq {key : Text} {s : Setting} (h : key.map Char.toLower = s.key) :
    ∃ part field, key = part ++ '.' :: field ∧
      Path.parse key = .ok [.member part, .member field] ∧
      Text.lower part = s.part.name ∧ Text.lower field = s.field := by
  obtain ⟨part, rest, rfl, hpart, hrest⟩ := List.map_eq_append_iff.1 h
  obtain ⟨c, field, rfl, hc, hfield⟩ := List.map_eq_cons_iff.1 hrest
  have hdot : c = '.' := by
    by_cases hascii : c.toNat < 128
    · exact Text.of_ascii (P := fun c => c.toLower = '.' → c = '.') hascii (by decide +kernel) hc
    · exact (Text.toLower_of_not_ascii hascii).symm.trans hc
  subst hdot
  have hplainPart : PlainName part := plainName_map_toLower_iff.1 (hpart ▸ plainName_name s.part)
  have hplainField : PlainName field := plainName_map_toLower_iff.1 (hfield ▸ plainName_field s)
  refine ⟨part, field, rfl, ?_, hplainPart.lower_eq.trans hpart, hplainField.lower_eq.trans hfield⟩
  have hmark : ∀ c ∈ ('.' :: field).head?, Path.isIdentifierChar c = false := by
    simp [Path.isIdentifierChar]
  rw [Path.parse, identifier?_append hplainPart _ hmark]
  dsimp only
  rw [List.length_cons, Path.steps, identifier?_eq hplainField]
  dsimp only
  cases field.length <;> rfl

/-- A value that is set at the path of a setting is found there, and no other one changes. -/
theorem found?_setMember {members : List (Text × Value)} (hc : Complete members) {s : Setting}
    {v : Value} (hv : v.isTable = false) {part field : Text}
    (hpart : Text.lower part = s.part.name) (hfield : Text.lower field = s.field) :
    Complete (setMember [.member part, .member field] v members) ∧
      ∀ s' : Setting, s'.found? (setMember [.member part, .member field] v members) =
        if s = s' then some v else s'.found? members := by
  obtain ⟨inner, file, hget⟩ := hc s.part
  have hset : setMember [.member part, .member field] v members =
      put s.part.name (.table (assign field v inner) file) members := by
    simp only [setMember, setAt, hpart, hget, Option.getD]
  rw [hset]
  refine ⟨fun other => ?_, fun s' => ?_⟩
  · by_cases hother : other = s.part
    · subst hother
      exact ⟨_, _, get?_put_self _ _ _⟩
    · rw [get?_put_of_ne _ _ (mt name_injective hother)]
      exact hc other
  · by_cases hother : s'.part = s.part
    · rw [Setting.found?, Setting.found?, hother, get?_put_self, hget]
      dsimp only
      rw [get?_assign, hfield, onto_of_not_table hv]
      refine if_congr ⟨fun h => eq_of_part_of_field hother.symm h, fun h => h ▸ rfl⟩ rfl rfl
    · rw [Setting.found?, Setting.found?, get?_put_of_ne _ _ (mt name_injective hother), if_neg]
      rintro rfl
      exact hother rfl

/-- The override that a key and its value stand for, with no path if the key is none. -/
def Override.ofPair (o : Text × Value) : Override :=
  match Path.parse o.1 with
  | .ok path => ⟨path, o.2⟩
  | .error _ => ⟨[], o.2⟩

theorem overridden?_cons (s : Setting) (o : Text × Value) (rest : List (Text × Value)) :
    s.overridden? (o :: rest) =
      if o.1.map Char.toLower = s.key then some o.2 else s.overridden? rest := by
  by_cases h : o.1.map Char.toLower = s.key <;> simp [Setting.overridden?, h]

theorem Targeted.of_cons {o : Text × Value} {rest : List (Text × Value)}
    (h : Targeted (o :: rest)) : Targeted rest :=
  ⟨fun o' ho => h.target o' (List.mem_cons_of_mem _ ho), (List.nodup_cons.1 h.distinct).2,
    fun o' ho => h.not_table o' (List.mem_cons_of_mem _ ho)⟩

theorem Targeted.of_perm {overrides other : List (Text × Value)} (h : Targeted overrides)
    (hperm : other.Perm overrides) : Targeted other :=
  ⟨fun o ho => h.target o (hperm.mem_iff.1 ho), (hperm.map _).nodup_iff.2 h.distinct,
    fun o ho => h.not_table o (hperm.mem_iff.1 ho)⟩

/-- What overrides of distinct settings give does not depend on their order. -/
theorem Targeted.overridden?_congr {overrides other : List (Text × Value)} (h : Targeted overrides)
    (hperm : other.Perm overrides) (s : Setting) :
    s.overridden? other = s.overridden? overrides :=
  congrArg (Option.map Prod.snd) (find?_key_congr h.distinct hperm s.key)

/-- The keys of overrides of settings are paths. -/
theorem mapM_of_targeted {overrides : List (Text × Value)} (h : Targeted overrides) :
    overrides.mapM (fun (key, v) => Override.of key v) = .ok (overrides.map Override.ofPair) := by
  induction overrides with
  | nil => rfl
  | cons o rest ih =>
    obtain ⟨key, v⟩ := o
    obtain ⟨s, hs⟩ := h.target (key, v) List.mem_cons_self
    obtain ⟨part, field, -, hparse, -⟩ := exists_parse_eq hs
    have hof : Override.of key v = .ok (Override.ofPair (key, v)) := by
      simp [Override.of, Override.ofPair, hparse]
    rw [List.mapM_cons]
    dsimp only
    rw [hof, ih h.of_cons]
    rfl

/-- What the key of a path of two steps is, in lower case. -/
def keyOfPath : List Step → Text
  | [.member part, .member field] => part.map Char.toLower ++ '.' :: field.map Char.toLower
  | _ => []

theorem lastOfEach_of_nodup {overrides : List Override}
    (h : (overrides.map Override.path).Nodup) : lastOfEach overrides = overrides := by
  induction overrides with
  | nil => rfl
  | cons o rest ih =>
    obtain ⟨hnot, hrest⟩ := List.nodup_cons.1 h
    rw [lastOfEach, if_neg, ih hrest]
    rw [List.any_eq_true]
    rintro ⟨later, hlater, hpath⟩
    exact hnot (List.mem_map.2 ⟨later, hlater, of_decide_eq_true hpath⟩)

/-- Overrides of distinct settings all count. -/
theorem lastOfEach_of_targeted {overrides : List (Text × Value)} (h : Targeted overrides) :
    lastOfEach (overrides.map Override.ofPair) = overrides.map Override.ofPair := by
  refine lastOfEach_of_nodup (List.Nodup.of_map keyOfPath ?_)
  have hkeys : ((overrides.map Override.ofPair).map Override.path).map keyOfPath =
      overrides.map fun o => o.1.map Char.toLower := by
    rw [List.map_map, List.map_map]
    refine List.map_congr_left fun o ho => ?_
    obtain ⟨s, hs⟩ := h.target o ho
    obtain ⟨part, field, hkey, hparse, -⟩ := exists_parse_eq hs
    simp only [Function.comp_apply, Override.ofPair, hparse, keyOfPath]
    rw [hkey, List.map_append, List.map_cons]
    rfl
  rw [hkeys]
  exact h.distinct

/-- Each setting is as its override sets it, or else as it was. -/
theorem found?_foldl_setMember {overrides : List (Text × Value)} (h : Targeted overrides)
    {members : List (Text × Value)} (hc : Complete members) :
    Complete ((overrides.map Override.ofPair).foldl
        (fun members o => setMember o.path o.value members) members) ∧
      ∀ s : Setting, s.found? ((overrides.map Override.ofPair).foldl
        (fun members o => setMember o.path o.value members) members) =
          (s.overridden? overrides).or (s.found? members) := by
  induction overrides generalizing members with
  | nil => exact ⟨hc, fun s => rfl⟩
  | cons o rest ih =>
    obtain ⟨target, htarget⟩ := h.target o List.mem_cons_self
    obtain ⟨part, field, -, hparse, hpart, hfield⟩ := exists_parse_eq htarget
    have hpair : Override.ofPair o = ⟨[.member part, .member field], o.2⟩ := by
      rw [Override.ofPair, hparse]
    obtain ⟨hcomplete, hfound⟩ :=
      found?_setMember hc (h.not_table o List.mem_cons_self) hpart hfield
    obtain ⟨hcomplete, hrest⟩ := ih h.of_cons hcomplete
    rw [List.map_cons, List.foldl_cons, hpair]
    refine ⟨hcomplete, fun s => ?_⟩
    rw [hrest, hfound]
    rw [overridden?_cons, htarget]
    by_cases hs : target = s
    · subst hs
      have hnone : target.overridden? rest = none := by
        rw [Setting.overridden?, Option.map_eq_none_iff, List.find?_eq_none]
        intro later hlater hkey
        refine (List.nodup_cons.1 h.distinct).1 (List.mem_map.2 ⟨later, hlater, ?_⟩)
        exact (of_decide_eq_true hkey).trans htarget.symm
      rw [hnone, if_pos rfl, if_pos rfl]
      rfl
    · rw [if_neg hs, if_neg (mt key_injective hs)]

/-! ## All together -/

/-- Plain layers are all read and laid down one after the other. -/
theorem foldlM_of_isPlain {t : Tree} {layers : List Layer} (h : ∀ l ∈ layers, l.IsPlain t)
    (members : List (Text × Value)) :
    layers.foldlM (fun members l => do return layer (← l.read t) members) members =
      (Except.ok ((layers.map (Layer.members t)).foldl
        (fun members incoming => layer incoming members) members) :
        Except Error (List (Text × Value))) := by
  induction layers generalizing members with
  | nil => rfl
  | cons l rest ih =>
    obtain ⟨⟨given, hread, -⟩, hrest⟩ := List.forall_mem_cons.1 h
    have hmembers : l.members t = given := by rw [Layer.members, hread]
    rw [List.foldlM_cons, hread, List.map_cons, List.foldl_cons, hmembers]
    exact ih hrest _

/-- The settings are made from the values that win, in whatever order layers and overrides are gone
through. -/
theorem build_eq_converted {t : Tree} {layers : List Layer} {overrides : List (Text × Value)}
    (hlayers : ∀ l ∈ layers, l.IsPlain t) (ho : Targeted overrides) (o : Orders) :
    build o t layers overrides = converted o.reading (winning t layers overrides) := by
  have hplain : ∀ incoming ∈ layers.map (Layer.members t), Plain incoming := by
    intro incoming hmem
    obtain ⟨l, hl, rfl⟩ := List.mem_map.1 hmem
    obtain ⟨given, hread, hgiven⟩ := hlayers l hl
    rwa [Layer.members, hread]
  obtain ⟨hmerged, hcomplete, hgiven⟩ :=
    foldl_layer merged_defaultMembers complete_defaultMembers _ hplain
  -- Put together once more, the members of all layers give the same settings.
  have harranged := hmerged.plain.arrange o.merged
  have hagain := merged_nil.layer harranged
  have hcomplete := complete_layer harranged merged_nil fun part => Or.inl (by
    obtain ⟨inner, file, hget⟩ := hcomplete part
    obtain ⟨around, hspelt⟩ := Order.exists_spelt?_arrangeIn hmerged.plain.distinct part.name
    rw [Order.arrange, hspelt, hmerged.lowered.spelt?_eq, hget]
    simp)
  let sorted := byRank (fun v => o.override (Override.ofPair v).path) overrides
  have hperm : sorted.Perm overrides := perm_byRank _ overrides
  obtain ⟨hcomplete, hfound⟩ := found?_foldl_setMember (ho.of_perm hperm) hcomplete
  have hmerge : merge o t layers (overrides.map Override.ofPair) = .ok ((sorted.map
      Override.ofPair).foldl (fun members o => setMember o.path o.value members)
        (layer (o.merged.arrange ((layers.map (Layer.members t)).foldl
          (fun members incoming => layer incoming members) defaultMembers)) [])) := by
    rw [merge, foldlM_of_isPlain hlayers, lastOfEach_of_targeted ho, byRank_map]
    rfl
  rw [build, mapM_of_targeted ho]
  change (merge o t layers (overrides.map Override.ofPair) >>= ofMembers o.reading) = _
  rw [hmerge]
  refine ofMembers_eq_converted (fun s => ?_) o.reading hcomplete
  have hnone : s.given? [] = none := rfl
  rw [hfound, hagain.found?_eq, given?_layer harranged merged_nil,
    hmerged.plain.given?_arrange, hgiven, given?_defaultMembers, hnone, Option.or_none, winning_eq,
    ho.overridden?_congr hperm]
  cases s.overridden? overrides with
  | some v => rfl
  | none => cases (layers.map (Layer.members t)).reverse.findSome? s.given? <;> rfl

/-- The settings can be made if and only if for each of them the value that wins can be converted,
and then they are what it is converted to. Nothing else has influence : where the same values win,
the result is the same, so a layer that gives no setting can be left out. Nor does it make a
difference in which order a layer, the layers together, or the overrides are gone through. -/
theorem build_winning {t : Tree} {layers : List Layer} {overrides : List (Text × Value)}
    (hlayers : ∀ l ∈ layers, l.IsPlain t) (ho : Targeted overrides) (o : Orders) :
    (∀ σ : Settings, build o t layers overrides = .ok σ ↔
      (winning t layers overrides .extension).ConvertsTo Datum.toText σ.source.extension ∧
      (winning t layers overrides .followLinks).ConvertsTo Datum.toBool σ.source.followLinks ∧
      (winning t layers overrides .resetCursorPerFile).ConvertsTo Datum.toBool
        σ.parsing.resetCursorPerFile ∧
      (winning t layers overrides .path).ConvertsTo Datum.toText σ.output.path ∧
      (winning t layers overrides .indent).ConvertsTo Datum.toNat σ.output.indent) ∧
    (∀ (t' : Tree) (layers' : List Layer) (overrides' : List (Text × Value)) (o' : Orders),
      (∀ l ∈ layers', l.IsPlain t') → Targeted overrides' →
      (∀ s, winning t' layers' overrides' s = winning t layers overrides s) →
      o'.reading = o.reading → build o' t' layers' overrides' = build o t layers overrides) ∧
    ∀ before l after, layers = before ++ l :: after →
      (∀ s : Setting, s.given? (l.members t) = none) →
      build o t (before ++ after) overrides = build o t layers overrides := by
  rw [build_eq_converted hlayers ho]
  refine ⟨fun σ => converted_eq_ok_iff,
    fun t' layers' overrides' o' hlayers' ho' hsame horder => ?_,
    fun before l after hsplit hnone => ?_⟩
  · rw [build_eq_converted hlayers' ho', funext hsame, horder]
  · subst hsplit
    have hrest : ∀ l' ∈ before ++ after, l'.IsPlain t := fun l' hl' =>
      hlayers l' (((List.sublist_cons_self l after).append_left before).mem hl')
    rw [build_eq_converted hrest ho]
    refine congrArg (converted o.reading) (funext fun s => ?_)
    simp [winning, List.findSome?_append, hnone s]

/-- A settings file is read if it holds a document that is a table. -/
theorem readFile_of_lookUp {t : Tree} {path : Path} {text : Text}
    (h : t.lookUp path = .ok (.file (Text.encode text))) : readFile t path =
      match Toml.parse? text with
      | some (.table members) => .ok (ofTomlMembers (some (fileName t path)) members)
      | some v => .error (.notATable (ofToml none v).described (fileName t path))
      | none => .error (.malformed (fileName t path)) := by
  have hlocate : locate? t path = some path := if_pos (Tree.isFile_iff.2 ⟨_, h⟩)
  have hread : t.read path = .ok text := by
    rw [Tree.read_of_lookUp h, Text.decode?_encode]
  cases hparse : Toml.parse? text with
  | none => simp only [readFile, hlocate, hread, hparse]
  | some v => cases v <;> simp only [readFile, hlocate, hread, hparse]

/-- The settings that one layer and overrides give. -/
theorem build_of_read {t : Tree} {l : Layer} {members : List (Text × Value)}
    {overrides : List (Text × Value)} (hread : l.read t = .ok members) (hplain : Plain members)
    (ho : Targeted overrides) (o : Orders) :
    build o t [l] overrides = converted o.reading fun s =>
      ((s.overridden? overrides).or (s.given? members)).getD s.byDefault := by
  have hmembers : l.members t = members := by rw [Layer.members, hread]
  have hlayers : ∀ l' ∈ [l], l'.IsPlain t := by
    rintro l' hl'
    rw [List.mem_singleton.1 hl']
    exact ⟨members, hread, hplain⟩
  rw [build_eq_converted hlayers ho]
  refine congrArg (converted o.reading) (funext fun s => ?_)
  rw [winning_eq, List.map_singleton, hmembers]
  simp

/-- An absent file that need not be there gives nothing. -/
theorem read_optional_of_absent {t : Tree} {path : Path} (h : locate? t path = none)
    (order : Order) : (Layer.optional path order).read t = .ok [] := by
  rw [Layer.read, readFile, h]

/-- The later of two files wins, whatever the case of its names, where it gives a setting; a file
that is absent changes nothing. Names that are longer are come by first. -/
theorem build_winning_of_files :
    let base := "[Source]\nextension = 'gram'\nfollow_links = 'yes'\n[output]\npath = 7\n".toList
    let later := "[source]\nEXTENSION = 'rules'\n[extra]\nx = 1\n".toList
    let t : Tree := ⟨[([.of "a.toml"], .file (Text.encode base)),
      ([.of "b.toml"], .file (Text.encode later))], []⟩
    let order : Order := ⟨fun _ name => 20 - name.length⟩
    let o : Orders := { merged := order, reading := order }
    let last := .required (.of "b.toml") .asWritten
    let layers := [.required (.of "a.toml") order, .optional (.of "gone") order, last]
    let overrides := [("Output.Indent".toList, .datum (.integer 2) none)]
    (∀ l ∈ layers, l.IsPlain t) ∧ Targeted overrides ∧
      build o t layers overrides = .ok ⟨⟨"rules".toList, true⟩, ⟨true⟩, ⟨"7".toList, 2⟩⟩ ∧
      build o t [.required (.of "a.toml") order, last] overrides =
        build o t layers overrides := by
  intro base later t order o last layers overrides
  have htree : ∀ a b : ByteArray,
      let t : Tree := ⟨[([.of "a.toml"], .file a), ([.of "b.toml"], .file b)], []⟩
      t.lookUp (.of "a.toml") = .ok (.file a) ∧ t.lookUp (.of "b.toml") = .ok (.file b) ∧
        locate? t (.of "gone") = none := by
    intro a b
    dsimp only
    refine ⟨?_, ?_, ?_⟩ <;> cbv
  obtain ⟨hlookFirst, hlookLast, habsent⟩ := htree (Text.encode base) (Text.encode later)
  let fromFirst (x : Datum) : Value := .datum x (some (.of "a.toml"))
  let fromLast (x : Datum) : Value := .datum x (some (.of "b.toml"))
  let first : List (Text × Value) :=
    [("Source".toList, .table [("follow_links".toList, fromFirst (.string "yes".toList)),
        ("extension".toList, fromFirst (.string "gram".toList))] (some (.of "a.toml"))),
      ("output".toList, .table [("path".toList, fromFirst (.integer 7))] (some (.of "a.toml")))]
  let given : List (Text × Value) :=
    [("source".toList, .table [("EXTENSION".toList, fromLast (.string "rules".toList))]
        (some (.of "b.toml"))),
      ("extra".toList, .table [("x".toList, fromLast (.integer 1))] (some (.of "b.toml")))]
  have hfirst : (Layer.required (.of "a.toml") order).read t = .ok first := by
    rw [Layer.read, readFile_of_lookUp hlookFirst]
    decide +kernel
  have hmiddle : (Layer.optional (.of "gone") order).read t = .ok [] :=
    read_optional_of_absent habsent _
  have hlast : last.read t = .ok given := by
    rw [Layer.read, readFile_of_lookUp hlookLast]
    decide +kernel
  have hlayers : ∀ l ∈ layers, l.IsPlain t := by
    simp only [layers, List.forall_mem_cons]
    exact ⟨⟨first, hfirst, by decide +kernel⟩, ⟨[], hmiddle, merged_nil.plain⟩,
      ⟨given, hlast, by decide +kernel⟩, by simp⟩
  have ho : Targeted overrides := by decide +kernel
  have hwinning : ∀ s : Setting, winning t layers overrides s =
      ((s.overridden? overrides).or ([given, [], first].findSome? s.given?)).getD s.byDefault := by
    have hmembers : layers.map (Layer.members t) = [first, [], given] := by
      simp only [layers, List.map_cons, List.map_nil, Layer.members, hfirst, hmiddle, hlast]
    intro s
    rw [winning_eq, hmembers]
    rfl
  obtain ⟨hbuild, -, hdrop⟩ := build_winning hlayers ho o
  refine ⟨hlayers, ho, (hbuild _).2 ?_, hdrop [_] _ [_] rfl fun s => ?_⟩
  · simp only [hwinning]
    exact ⟨⟨.string "rules".toList, some (.of "b.toml"), by decide +kernel, rfl⟩,
      ⟨.string "yes".toList, some (.of "a.toml"), by decide +kernel, by decide +kernel⟩,
      ⟨.boolean true, none, by decide +kernel, rfl⟩,
      ⟨.integer 7, some (.of "a.toml"), by decide +kernel, by decide +kernel⟩,
      ⟨.integer 2, none, by decide +kernel, rfl⟩⟩
  · rw [Layer.members, hmiddle]
    rfl

end Rulebook.Settings
