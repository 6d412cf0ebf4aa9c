import Rulebook.Settings.Basic
import Rulebook.Settings.Order

/-!
# Conversions

How the value that a layer gives for a field is turned into what the field needs, and how a
section is read field by field. Truth values, numbers and texts stand in for each other as
far as they can. Sections and fields are read in the order in which they are come by, so that
where several cannot be converted the order decides which one is reported.
-/

namespace Rulebook.Settings

/-- A conversion : what it makes of a datum, or what it finds instead of what it expects. -/
abbrev Conversion (α : Type) := Datum → Except (String × Expected) α

namespace Datum

/-- The words for true. -/
def trueWords : List Text := ["true".toList, "on".toList, "yes".toList]

/-- The words for false. -/
def falseWords : List Text := ["false".toList, "off".toList, "no".toList]

/-- The greatest integer that a word of 64 bits holds. -/
def unsignedMax : Nat := 0xFFFFFFFFFFFFFFFF

/-- The integer that a text of digits gives, with a plus sign or without, if a word of 64 bits
holds it. -/
def naturalOf? (s : Text) : Option Nat :=
  let ds := match s with
    | '+' :: s => s
    | s => s
  if ds ≠ [] ∧ ds.all Char.isDigit then
    let n := ds.foldl (fun n c => n * 10 + (c.toNat - '0'.toNat)) 0
    if n ≤ unsignedMax then some n else none
  else none

/-- A truth value : a number is true unless it is zero. -/
def toBool : Conversion Bool
  | boolean b => .ok b
  | integer n => .ok (n ≠ 0)
  | float x => .ok (!x.isZero)
  | string s =>
    let word := Text.lower s
    if word = ['1'] ∨ word ∈ trueWords then .ok true
    else if word = ['0'] ∨ word ∈ falseWords then .ok false
    else .error ((string word).described, .boolean)
  | unit => .error (unit.described, .boolean)

/-- An integer that is not negative and fits into 64 bits. A number with a fraction is rounded. -/
def toNat : Conversion Nat
  | boolean b => .ok (if b then 1 else 0)
  | integer n =>
    if 0 ≤ n then .ok n.toNat else .error ((integer n).described, .unsigned)
  | float x => .ok (x.toNatClamped unsignedMax)
  | string s =>
    let word := Text.lower s
    if word ∈ trueWords then .ok 1
    else if word ∈ falseWords then .ok 0
    else
      match naturalOf? s with
      | some n => .ok n
      | none => .error ((string s).described, .integer)
  | unit => .error (unit.described, .integer)

/-- A text. -/
def toText : Conversion Text
  | boolean b => .ok (toString b).toList
  | integer n => .ok (toString n).toList
  | float x => .ok x.toText
  | string s => .ok s
  | unit => .error (unit.described, .string)

end Datum

/-- The value of the field `key`, converted. -/
def Value.convert {α : Type} (expected : Expected) (conversion : Conversion α) (key : Text)
    (v : Value) : Except Error α :=
  match v with
  | .datum d file =>
    match conversion d with
    | .ok a => .ok a
    | .error (found, expected) => .error (.invalidValue found expected key file)
  | v => .error (.invalidValue v.described expected key v.file)

/-! ## Sections -/

namespace Section

/-- The field number `index` of a section, converted, if the value of the section gives it : a
table by the name of the field, a list by its position. -/
def field? {α : Type} (s : Section) (v : Value) (index : Nat) (expected : Expected)
    (conversion : Conversion α) : Except Error (Option α) :=
  match v with
  | .datum d _ => .error (.notASection d s)
  | .list items _ =>
    match items[index]? with
    | some item =>
      let key := s.name ++ '[' :: Nat.toDigits 10 index ++ [']']
      some <$> item.convert expected conversion key
    | none => .error (.tooFewItems index s)
  | .table members _ =>
    let field := s.fields[index]?.getD []
    match Members.get? field members with
    | some item => some <$> item.convert expected conversion (s.name ++ '.' :: field)
    | none => .ok none

/-- What must be there under a name. -/
def require {α : Type} (name : Text) : Option α → Except Error α
  | some a => .ok a
  | none => .error (.missingField name)

/-- What is read under the name of the section, if something is there. -/
def read? {α : Type} (s : Section) (reading : Value → Except Error α)
    (members : List (Text × Value)) : Except Error (Option α) :=
  match Members.get? s.name members with
  | some v => some <$> reading v
  | none => .ok none

/-- Reads the fields of a section : those of a table in the order in which they are come by, those
of a list in turn. -/
def first (s : Section) (o : Order) (v : Value) (readings : List (Except Error Unit)) :
    Except Error Unit :=
  match v with
  | .table .. => o.first [s.name] (s.fields.zip readings)
  | _ => readings.forM id

end Section

/-- The settings for the files that are read, from the value of their section. -/
def readSource (o : Order) (v : Value) : Except Error SourceSettings := do
  let extension := Section.source.field? v 0 .string Datum.toText
  let followLinks := Section.source.field? v 1 .boolean Datum.toBool
  Section.source.first o v [discard extension, discard followLinks]
  return ⟨← Section.require "extension".toList (← extension),
    ← Section.require "follow_links".toList (← followLinks)⟩

/-- The settings for lines, from the value of their section. -/
def readParsing (o : Order) (v : Value) : Except Error ParsingSettings := do
  let reset := Section.parsing.field? v 0 .boolean Datum.toBool
  Section.parsing.first o v [discard reset]
  return ⟨← Section.require "reset_cursor_per_file".toList (← reset)⟩

/-- The settings for the document, from the value of their section. -/
def readOutput (o : Order) (v : Value) : Except Error OutputSettings := do
  let path := Section.output.field? v 0 .string Datum.toText
  let indent := Section.output.field? v 1 .integer Datum.toNat
  Section.output.first o v [discard path, discard indent]
  return ⟨← Section.require "path".toList (← path), ← Section.require "indent".toList (← indent)⟩

/-- The settings that the sections among the members give. -/
def ofMembers (o : Order) (members : List (Text × Value)) : Except Error Settings := do
  let source := Section.source.read? (readSource o) members
  let parsing := Section.parsing.read? (readParsing o) members
  let output := Section.output.read? (readOutput o) members
  o.first [] [(Section.source.name, discard source), (Section.parsing.name, discard parsing),
    (Section.output.name, discard output)]
  return ⟨← Section.require Section.source.name (← source),
    ← Section.require Section.parsing.name (← parsing),
    ← Section.require Section.output.name (← output)⟩

end Rulebook.Settings
