import Mathlib
import Rulebook.Proofs.FileNames
import Rulebook.Proofs.Winning

/-!
# Where the values that win come from

All values that are read from a file name that file (`file_of_given?`), and the value of a setting
that wins is one that a layer gives, however often the tables around it were put together
(`file_winning`). So where one setting alone has a value that cannot be converted, the error names
that setting and the file that its value is from (`build_error_names_origin`). Layers that are
named the same are one file (`readFile_of_fileName`), so no other one is named.
-/

namespace Rulebook.Settings

open Members Value

/-! ## Values of a file -/

theorem readFile_eq_ok_iff {t : Tree} {path : Path} {members : List (Text × Value)} :
    readFile t path = .ok members ↔ ∃ found text document, locate? t path = some found ∧
      t.read found = .ok text ∧ Toml.parse? text = some (.table document) ∧
      ofTomlMembers (some (fileName t found)) document = members := by
  constructor
  · intro h
    unfold readFile at h
    split at h
    · simp at h
    · next found hfound =>
      split at h
      · simp at h
      · next text htext =>
        split at h
        · next document hdocument =>
          exact ⟨found, text, document, hfound, htext, hdocument, Except.ok.inj h⟩
        · simp at h
        · simp at h
  · rintro ⟨found, text, document, hfound, htext, hdocument, rfl⟩
    simp only [readFile, hfound, htext, hdocument]

/-- The name of the file that a layer is read from. -/
def Layer.file? (t : Tree) (l : Layer) : Option Path := (locate? t l.path).map (fileName t)

theorem file_ofToml (file : Option Path) (v : Toml.Value) : (ofToml file v).file = file := by
  cases v <;> rfl

/-- A lookup in what a document gives is a lookup in the document, with the file attached. -/
theorem spelt?_ofTomlMembers (name : Text) (file : Option Path)
    (document : List (Text × Toml.Value)) :
    spelt? name (ofTomlMembers file document) = (spelt? name document).map (ofToml file) := by
  induction document with
  | nil => rfl
  | cons m document ih =>
    obtain ⟨other, v⟩ := m
    rw [ofTomlMembers, spelt?_cons, spelt?_cons, ih]
    dsimp only
    split <;> rfl

/-- The section of a file is a table of the file. -/
theorem exists_membersIn_ofTomlMembers (part : Section) (file : Option Path)
    (document : List (Text × Toml.Value)) :
    ∃ inner, part.membersIn (ofTomlMembers file document) = ofTomlMembers file inner := by
  rw [Section.membersIn, spelt?_ofTomlMembers]
  cases spelt? part.name document with
  | none => exact ⟨[], rfl⟩
  | some v =>
    cases v with
    | table inner => exact ⟨inner, rfl⟩
    | _ => exact ⟨[], rfl⟩

/-- The value of a setting that a file gives names the file. -/
theorem file_of_given? {s : Setting} {file : Option Path} {document : List (Text × Toml.Value)}
    {v : Value} (h : s.given? (ofTomlMembers file document) = some v) : v.file = file := by
  obtain ⟨inner, hinner⟩ := exists_membersIn_ofTomlMembers s.part file document
  rw [Setting.given?, hinner, spelt?_ofTomlMembers] at h
  obtain ⟨w, -, rfl⟩ := Option.map_eq_some_iff.1 h
  exact file_ofToml file w

/-- A layer that gives a setting gives what its file gives, whatever the order. -/
theorem Layer.exists_readFile_of_given? {t : Tree} {l : Layer} {s : Setting} {v : Value}
    (hl : l.IsPlain t) (h : s.given? (l.members t) = some v) :
    ∃ given, readFile t l.path = .ok given ∧ Plain given ∧ s.given? given = some v := by
  obtain ⟨given, hok, hplain⟩ := isPlain_iff.1 hl
  rw [given?_members hok hplain] at h
  obtain rfl | hread := eq_nil_or_of_given hok
  · exact absurd h (by simp [Setting.given?, Section.membersIn, spelt?])
  · exact ⟨given, hread, hplain, h⟩

/-- A layer that gives a setting is read from a file, and the value of the setting names it. -/
theorem Layer.file?_of_given? {t : Tree} {l : Layer} {s : Setting} {v : Value} (hl : l.IsPlain t)
    (h : s.given? (l.members t) = some v) : v.file = l.file? t ∧ (l.file? t).isSome := by
  obtain ⟨given, hgiven, -, hv⟩ := l.exists_readFile_of_given? hl h
  obtain ⟨found, text, document, hfound, -, -, rfl⟩ := readFile_eq_ok_iff.1 hgiven
  rw [file?, hfound]
  exact ⟨file_of_given? hv, rfl⟩

/-! ## Files of one name -/

/-- The file that is found for a path is a regular one. -/
theorem isFile_of_locate? {t : Tree} {path found : Path} (h : locate? t path = some found) :
    t.isFile found = true := by
  unfold locate? at h
  split at h
  · next hfile => exact Option.some.inj h ▸ hfile
  · exact (Option.filter_eq_some_iff.1 h).2

/-- The name of the file that is found for a path leads where the path found leads. -/
theorem resolve_fileName_of_locate? {t : Tree} (hhoused : t.Housed)
    (hhome : ∀ name ∈ t.home, Tree.Proper name) {path found : Path}
    (h : locate? t path = some found) : t.resolve (fileName t found) = t.resolve found := by
  obtain ⟨contents, hfile⟩ := Tree.isFile_iff.1 (isFile_of_locate? h)
  obtain ⟨place, hplace, hget⟩ := Tree.lookUp_eq_ok_iff.1 hfile
  rw [resolve_fileName hhoused hhome hplace (by simp [hget]), hplace]

/-- Paths of files with one name give the same members. -/
theorem readFile_of_fileName {t : Tree} (hhoused : t.Housed)
    (hhome : ∀ name ∈ t.home, Tree.Proper name) {path path' found found' : Path}
    (h : locate? t path = some found) (h' : locate? t path' = some found')
    (hname : fileName t found' = fileName t found) : readFile t path' = readFile t path := by
  have hresolve : t.resolve found' = t.resolve found := by
    rw [← resolve_fileName_of_locate? hhoused hhome h, ← hname,
      resolve_fileName_of_locate? hhoused hhome h']
  have hread : t.read found' = t.read found := by
    rw [Tree.read, Tree.read, Tree.lookUp, Tree.lookUp, hresolve]
  simp only [readFile, h, h', hread, hname]

/-! ## The file of the value that wins -/

/-- The file that the value of the setting that wins is from : none if an override sets it, or else
the file of the last layer that gives it. -/
def origin (t : Tree) (layers : List Layer) (overrides : List (Text × Value)) (s : Setting) :
    Option Path :=
  match s.overridden? overrides with
  | some _ => none
  | none => (layers.reverse.find? fun l => (s.given? (l.members t)).isSome).bind (Layer.file? t)

variable {t : Tree} {layers : List Layer} {overrides : List (Text × Value)}

/-- The origin of a setting is the last layer that gives it, unless it is overridden. -/
theorem origin_of_last {before after : List Layer} {l : Layer} {s : Setting}
    (hover : s.overridden? overrides = none) (hgiven : (s.given? (l.members t)).isSome)
    (hlast : ∀ later ∈ after, s.given? (later.members t) = none) :
    origin t (before ++ l :: after) overrides s = l.file? t := by
  have hfind : (before ++ l :: after).reverse.find? (fun l => (s.given? (l.members t)).isSome) =
      some l := by
    rw [List.reverse_append, List.reverse_cons, List.append_assoc, List.find?_append,
      List.find?_eq_none.2, Option.none_or]
    · simp [hgiven]
    · intro later hlater
      simp [hlast later (List.mem_reverse.1 hlater)]
  rw [origin, hover]
  dsimp only
  rw [hfind, Option.bind_some]

theorem file_of_overridden? (hfile : ∀ o ∈ overrides, o.2.file = none) {s : Setting} {v : Value}
    (h : s.overridden? overrides = some v) : v.file = none := by
  obtain ⟨o, ho, rfl⟩ := Option.map_eq_some_iff.1 h
  exact hfile o (List.mem_of_find?_eq_some ho)

/-- A value that wins and is no default is set by an override, or given by a layer that no later one
takes the place of. -/
theorem origin_eq_or {s : Setting} (hdefault : winning t layers overrides s ≠ s.byDefault) :
    (∃ v, s.overridden? overrides = some v ∧ winning t layers overrides s = v ∧
      origin t layers overrides s = none) ∨
    s.overridden? overrides = none ∧ ∃ l ∈ layers,
      s.given? (l.members t) = some (winning t layers overrides s) ∧
      origin t layers overrides s = l.file? t := by
  unfold winning at hdefault ⊢
  cases hover : s.overridden? overrides with
  | some v => exact Or.inl ⟨v, rfl, rfl, by rw [origin, hover]⟩
  | none =>
    rw [hover, Option.none_or] at hdefault
    cases hgiven : layers.reverse.findSome? fun l => s.given? (l.members t) with
    | none => simp [hgiven] at hdefault
    | some v =>
      obtain ⟨after, l, before, hsplit, hl, hlast⟩ := List.findSome?_eq_some_iff.1 hgiven
      have hlayers : layers = before.reverse ++ l :: after.reverse := by
        rw [← List.reverse_reverse layers, hsplit]
        simp
      refine Or.inr ⟨rfl, l, by simp [hlayers], hl, ?_⟩
      rw [hlayers]
      exact origin_of_last hover (by rw [hl]; rfl) fun later hlater =>
        hlast later (List.mem_reverse.1 hlater)

/-- A value that wins and is no default names the file that it is from. -/
theorem file_winning (hlayers : ∀ l ∈ layers, l.IsPlain t)
    (hfile : ∀ o ∈ overrides, o.2.file = none) {s : Setting}
    (hdefault : winning t layers overrides s ≠ s.byDefault) :
    (winning t layers overrides s).file = origin t layers overrides s ∧
      ((origin t layers overrides s).isSome ↔ s.overridden? overrides = none) := by
  obtain ⟨v, hover, rfl, horigin⟩ | ⟨hover, l, hl, hgiven, horigin⟩ := origin_eq_or hdefault
  · rw [horigin, hover, file_of_overridden? hfile hover]
    simp
  · obtain ⟨hname, hsome⟩ := Layer.file?_of_given? (hlayers l hl) hgiven
    simp [horigin, hname, hsome, hover]

/-- A layer that is read from the file that the value that wins is from gives that value. -/
theorem given?_of_origin (hlayers : ∀ l ∈ layers, l.IsPlain t) (hhoused : t.Housed)
    (hhome : ∀ name ∈ t.home, Tree.Proper name) {s : Setting}
    (hdefault : winning t layers overrides s ≠ s.byDefault) {l : Layer} {file : Path}
    (horigin : origin t layers overrides s = some file)
    (hfile : l.file? t = some file) :
    s.given? (l.members t) = some (winning t layers overrides s) := by
  obtain ⟨v, -, -, hnone⟩ | ⟨-, last, hlast, hgiven, hsome⟩ := origin_eq_or hdefault
  · rw [hnone] at horigin
    cases horigin
  obtain ⟨given, hread, hplain, hv⟩ := last.exists_readFile_of_given? (hlayers last hlast) hgiven
  obtain ⟨found, hfound, hname⟩ := Option.map_eq_some_iff.1 (hsome ▸ horigin)
  obtain ⟨found', hfound', hname'⟩ := Option.map_eq_some_iff.1 hfile
  have hread' : readFile t l.path = .ok given :=
    (readFile_of_fileName hhoused hhome hfound hfound' (hname'.trans hname.symm)).trans hread
  rw [Layer.given?_members (Layer.given_of_readFile hread') hplain, hv]

/-! ## The setting that is reported -/

/-- The value can be converted to what the setting needs. -/
def Setting.Accepts (s : Setting) (v : Value) : Prop :=
  match s with
  | extension | path => ∃ a, v.ConvertsTo Datum.toText a
  | followLinks | resetCursorPerFile => ∃ a, v.ConvertsTo Datum.toBool a
  | indent => ∃ a, v.ConvertsTo Datum.toNat a

instance {α : Type} (v : Value) (conversion : Conversion α) :
    Decidable (∃ a, v.ConvertsTo conversion a) :=
  match v with
  | .datum d file =>
    match h : conversion d with
    | .ok a => isTrue ⟨a, d, file, rfl, h⟩
    | .error _ => isFalse fun ⟨_, _, _, heq, ha⟩ => by
      obtain ⟨rfl, rfl⟩ := datum.inj heq
      simp [h] at ha
  | .list .. | .table .. => isFalse nofun

instance (s : Setting) (v : Value) : Decidable (s.Accepts v) :=
  match s with
  | .extension | .path => inferInstanceAs (Decidable (∃ a, v.ConvertsTo Datum.toText a))
  | .followLinks | .resetCursorPerFile =>
    inferInstanceAs (Decidable (∃ a, v.ConvertsTo Datum.toBool a))
  | .indent => inferInstanceAs (Decidable (∃ a, v.ConvertsTo Datum.toNat a))

/-- Every default converts to the type of its field. -/
theorem Setting.accepts_byDefault (s : Setting) : s.Accepts s.byDefault := by
  cases s <;> exact ⟨_, _, _, rfl, rfl⟩

theorem bind_eq_error_iff {α β : Type} {x : Except Error α} {f : α → Except Error β} {e : Error} :
    (do f (← x)) = .error e ↔ x = .error e ∨ ∃ a, x = .ok a ∧ f a = .error e := by
  cases x <;> simp [bind, Except.bind]

/-- A value that cannot be converted is reported with the key at hand and its own file. -/
theorem Value.of_convert_eq_error {α : Type} {expected : Expected} {conversion : Conversion α}
    {key : Text} {v : Value} {e : Error} (h : v.convert expected conversion key = .error e) :
    (¬∃ a, v.ConvertsTo conversion a) ∧
      ∃ found expected', e = .invalidValue found expected' key v.file := by
  refine ⟨fun ⟨a, ha⟩ => ?_, ?_⟩
  · rw [convert_eq_ok_iff.2 ha] at h
    simp at h
  · cases v with
    | datum d file =>
      rw [convert] at h
      split at h
      · simp at h
      · next found expected' _ => exact ⟨found, expected', (Except.error.inj h).symm⟩
    | list items file | table members file => exact ⟨_, _, (Except.error.inj h).symm⟩

theorem discard_eq_error_iff {α : Type} {x : Except Error α} {e : Error} :
    discard x = .error e ↔ x = .error e := by
  cases x <;> simp [discard, Functor.mapConst, Except.map]

section

variable {order : Order} {w : Setting → Value} {e : Error}

/-- The error is of this setting : its value cannot be converted, and the error names the setting
in full and the file of the value. -/
def Setting.Reported (w : Setting → Value) (e : Error) (s : Setting) : Prop :=
  ¬s.Accepts (w s) ∧ ∃ found expected, e = .invalidValue found expected s.key (w s).file

theorem exists_reported_of_convertedSource (h : convertedSource order w = .error e) :
    ∃ s, Setting.Reported w e s := by
  simp only [convertedSource, bind_eq_error_iff] at h
  rcases h with h | ⟨_, -, h | ⟨_, -, h | ⟨_, -, h⟩⟩⟩
  · obtain ⟨r, hr, hfailed⟩ := Order.exists_of_first_eq_error h
    simp only [List.mem_cons, List.not_mem_nil, or_false] at hr
    rcases hr with rfl | rfl
    · exact ⟨.extension, of_convert_eq_error (discard_eq_error_iff.1 hfailed)⟩
    · exact ⟨.followLinks, of_convert_eq_error (discard_eq_error_iff.1 hfailed)⟩
  · exact ⟨.extension, of_convert_eq_error h⟩
  · exact ⟨.followLinks, of_convert_eq_error h⟩
  · cases h

theorem exists_reported_of_convertedParsing (h : convertedParsing order w = .error e) :
    ∃ s, Setting.Reported w e s := by
  simp only [convertedParsing, bind_eq_error_iff] at h
  rcases h with h | ⟨_, -, h | ⟨_, -, h⟩⟩
  · obtain ⟨r, hr, hfailed⟩ := Order.exists_of_first_eq_error h
    rw [List.mem_singleton] at hr
    subst hr
    exact ⟨.resetCursorPerFile, of_convert_eq_error (discard_eq_error_iff.1 hfailed)⟩
  · exact ⟨.resetCursorPerFile, of_convert_eq_error h⟩
  · cases h

theorem exists_reported_of_convertedOutput (h : convertedOutput order w = .error e) :
    ∃ s, Setting.Reported w e s := by
  simp only [convertedOutput, bind_eq_error_iff] at h
  rcases h with h | ⟨_, -, h | ⟨_, -, h | ⟨_, -, h⟩⟩⟩
  · obtain ⟨r, hr, hfailed⟩ := Order.exists_of_first_eq_error h
    simp only [List.mem_cons, List.not_mem_nil, or_false] at hr
    rcases hr with rfl | rfl
    · exact ⟨.path, of_convert_eq_error (discard_eq_error_iff.1 hfailed)⟩
    · exact ⟨.indent, of_convert_eq_error (discard_eq_error_iff.1 hfailed)⟩
  · exact ⟨.path, of_convert_eq_error h⟩
  · exact ⟨.indent, of_convert_eq_error h⟩
  · cases h

/-- In whatever order sections and fields are read, what is reported is a setting whose value cannot
be converted. -/
theorem exists_of_converted_eq_error (h : converted order w = .error e) :
    ∃ s, Setting.Reported w e s := by
  simp only [converted, bind_eq_error_iff] at h
  rcases h with h | ⟨_, -, h | ⟨_, -, h | ⟨_, -, h | ⟨_, -, h⟩⟩⟩⟩
  · obtain ⟨r, hr, hfailed⟩ := Order.exists_of_first_eq_error h
    simp only [List.mem_cons, List.not_mem_nil, or_false] at hr
    rcases hr with rfl | rfl | rfl
    · exact exists_reported_of_convertedSource (discard_eq_error_iff.1 hfailed)
    · exact exists_reported_of_convertedParsing (discard_eq_error_iff.1 hfailed)
    · exact exists_reported_of_convertedOutput (discard_eq_error_iff.1 hfailed)
  · exact exists_reported_of_convertedSource h
  · exact exists_reported_of_convertedParsing h
  · exact exists_reported_of_convertedOutput h
  · cases h

end

/-- If all values are converted, each of them converts. -/
theorem accepts_of_converted_eq_ok {order : Order} {w : Setting → Value} {σ : Settings}
    (h : converted order w = .ok σ) (s : Setting) : s.Accepts (w s) := by
  obtain ⟨hextension, hfollowLinks, hreset, hpath, hindent⟩ := converted_eq_ok_iff.1 h
  cases s with
  | extension => exact ⟨_, hextension⟩
  | followLinks => exact ⟨_, hfollowLinks⟩
  | resetCursorPerFile => exact ⟨_, hreset⟩
  | path => exact ⟨_, hpath⟩
  | indent => exact ⟨_, hindent⟩

/-- If there is one setting whose value that wins cannot be converted, the settings cannot be made,
and the error names that setting in full and the file that the value is from : the one of the last
layer that gives the setting, or none if an override sets it. Every layer that has the name of that
file gives the value that wins, so no layer is named that has been overridden. -/
theorem build_error_names_origin {t : Tree} {layers : List Layer}
    {overrides : List (Text × Value)} (hlayers : ∀ l ∈ layers, l.IsPlain t)
    (ho : Targeted overrides) (hfile : ∀ o ∈ overrides, o.2.file = none) {s : Setting}
    (hs : ∀ s' : Setting, ¬s'.Accepts (winning t layers overrides s') ↔ s' = s) (o : Orders) :
    (∃ found expected, build o t layers overrides =
      .error (.invalidValue found expected s.key (origin t layers overrides s))) ∧
    ((origin t layers overrides s).isSome ↔ s.overridden? overrides = none) ∧
    (t.Housed → (∀ name ∈ t.home, Tree.Proper name) → ∀ l ∈ layers, ∀ file,
      origin t layers overrides s = some file → l.file? t = some file →
        s.given? (l.members t) = some (winning t layers overrides s)) := by
  have hdefault : winning t layers overrides s ≠ s.byDefault := fun heq =>
    (hs s).2 rfl (heq ▸ s.accepts_byDefault)
  obtain ⟨horigin, hsome⟩ := file_winning hlayers hfile hdefault
  refine ⟨?_, hsome, fun hhoused hhome l _ file => given?_of_origin hlayers hhoused hhome hdefault⟩
  rw [build_eq_converted hlayers ho]
  cases hresult : converted o.reading (winning t layers overrides) with
  | ok σ => exact absurd (accepts_of_converted_eq_ok hresult s) ((hs s).2 rfl)
  | error e =>
    obtain ⟨s', hs', found, expected, rfl⟩ := exists_of_converted_eq_error hresult
    obtain rfl := (hs s').1 hs'
    exact ⟨found, expected, by rw [horigin]⟩

/-- Two files give a number that is none, one of them in the directory above. The later one is named
from the working directory, wherever its path starts and whatever the case of its names, and none
where an override takes the place of both. -/
theorem build_error_names_origin_of_later :
    let base := "[output]\nindent = 'wide'\n".toList
    let later := "[Output]\nINDENT = -1\n".toList
    let t : Tree := ⟨[([.of "b.toml", .of "w"], .file (Text.encode base)),
      ([.of "b.toml"], .file (Text.encode later)), ([.of "w"], .directory)], [.of "w"]⟩
    let layers := [.required (.of "b.toml") .asWritten, .required (.of "/b.toml") .asWritten]
    let overrides := [("output.path".toList, .datum (.integer 3) none)]
    let overrides' := ("OUTPUT.indent".toList, .datum (.string "two".toList) none) :: overrides
    (∀ l ∈ layers, l.IsPlain t) ∧ Targeted overrides ∧ Targeted overrides' ∧
      (∀ o ∈ overrides', o.2.file = none) ∧
      (∀ s : Setting, ¬s.Accepts (winning t layers overrides s) ↔ s = .indent) ∧
      (∀ s : Setting, ¬s.Accepts (winning t layers overrides' s) ↔ s = .indent) ∧
      (∃ found expected, build {} t layers overrides =
        .error (.invalidValue found expected "output.indent".toList (some (.of "../b.toml")))) ∧
      ∃ found expected, build {} t layers overrides' =
        .error (.invalidValue found expected "output.indent".toList none) := by
  intro base later t layers overrides overrides'
  have htree : ∀ a b : ByteArray,
      let t : Tree := ⟨[([.of "b.toml", .of "w"], .file a), ([.of "b.toml"], .file b),
        ([.of "w"], .directory)], [.of "w"]⟩
      t.lookUp (.of "b.toml") = .ok (.file a) ∧ t.lookUp (.of "/b.toml") = .ok (.file b) := by
    intro a b
    dsimp only
    refine ⟨?_, ?_⟩ <;> cbv
  obtain ⟨hlookFirst, hlookLast⟩ := htree (Text.encode base) (Text.encode later)
  let first : List (Text × Value) := [("output".toList, .table [("indent".toList,
    .datum (.string "wide".toList) (some (.of "b.toml")))] (some (.of "b.toml")))]
  let last : List (Text × Value) := [("Output".toList, .table [("INDENT".toList,
    .datum (.integer (-1)) (some (.of "../b.toml")))] (some (.of "../b.toml")))]
  have hfirst : (Layer.required (.of "b.toml") .asWritten).read t = .ok first := by
    rw [Layer.read, readFile_of_lookUp hlookFirst]
    decide +kernel
  have hlast : (Layer.required (.of "/b.toml") .asWritten).read t = .ok last := by
    rw [Layer.read, readFile_of_lookUp hlookLast]
    decide +kernel
  have hlayers : ∀ l ∈ layers, l.IsPlain t := by
    simp only [layers, List.forall_mem_cons]
    exact ⟨⟨first, hfirst, by decide +kernel⟩, ⟨last, hlast, by decide +kernel⟩, by simp⟩
  have ho : Targeted overrides := by decide +kernel
  have ho' : Targeted overrides' := by decide +kernel
  have hfile : ∀ o ∈ overrides', o.2.file = none := by decide
  have hwinning : ∀ overrides, winning t layers overrides = fun s : Setting =>
      ((s.overridden? overrides).or ([last, first].findSome? s.given?)).getD s.byDefault := by
    have hmembers : layers.map (Layer.members t) = [first, last] := by
      simp only [layers, List.map_cons, List.map_nil, Layer.members, hfirst, hlast]
    intro overrides
    funext s
    rw [winning_eq, hmembers]
    rfl
  have hs : ∀ s : Setting, ¬s.Accepts (winning t layers overrides s) ↔ s = .indent := by
    rw [hwinning]
    decide +kernel
  have hs' : ∀ s : Setting, ¬s.Accepts (winning t layers overrides' s) ↔ s = .indent := by
    rw [hwinning]
    decide +kernel
  have horigin : origin t layers overrides .indent = some (.of "../b.toml") := by
    have hgiven :
        (Setting.indent.given? ((Layer.required (.of "/b.toml") .asWritten).members t)).isSome := by
      rw [Layer.members, hlast]
      decide +kernel
    have hlocate : locate? t (.of "/b.toml") = some (.of "/b.toml") :=
      if_pos (Tree.isFile_iff.2 ⟨_, hlookLast⟩)
    have hnone : Setting.indent.overridden? overrides = none := by decide +kernel
    have hsplit : layers =
        [.required (.of "b.toml") .asWritten] ++ .required (.of "/b.toml") .asWritten :: [] := rfl
    rw [hsplit, origin_of_last hnone hgiven (by simp), Layer.file?, Layer.path, hlocate]
    decide +kernel
  obtain ⟨hbuild, -⟩ := build_error_names_origin hlayers ho
    (fun o h => hfile o (List.mem_cons_of_mem _ h)) hs {}
  obtain ⟨hbuild', -⟩ := build_error_names_origin hlayers ho' hfile hs' {}
  rw [horigin] at hbuild
  exact ⟨hlayers, ho, ho', hfile, hs, hs', hbuild, hbuild'⟩

end Rulebook.Settings
