import Rulebook.Text.Encoding

/-!
# Names and paths

The names in a directory are bytes, and so are paths, in which a slash stands between names. A text
gives a path by its UTF-8 form. Other bytes give paths too, and then no text is the name : a message
shows `U+FFFD` in place of what is no character (`Path.shownText`), and shows the path of a text as
the text itself (`Path.shownText_bytes`).
-/

namespace Rulebook

/-- A name in a directory, byte by byte. -/
abbrev Name := List UInt8

/-- A path, byte by byte. -/
abbrev Path := List UInt8

/-- The bytes of the UTF-8 form of a text. -/
def Text.bytes (s : Text) : List UInt8 := s.flatMap String.utf8EncodeChar

@[simp] theorem Text.bytes_nil : Text.bytes [] = [] := rfl

@[simp] theorem Text.bytes_cons (c : Char) (s : Text) :
    Text.bytes (c :: s) = String.utf8EncodeChar c ++ Text.bytes s := by
  simp [Text.bytes]

@[simp] theorem Text.bytes_append (s t : Text) : Text.bytes (s ++ t) = s.bytes ++ t.bytes := by
  simp [Text.bytes]

/-- The name that is written in a program. -/
def Name.of (s : String) : Name := Text.bytes s.toList

/-- Whether a name is the UTF-8 form of some text. -/
def Name.isText (name : Name) : Bool := (Text.decode? ⟨name.toArray⟩).isSome

namespace Path

/-- The byte that stands between names. -/
@[match_pattern]
abbrev slash : UInt8 := 0x2F

/-- The byte that is the name of the directory at hand, and twice that of the one above. -/
@[match_pattern]
abbrev dot : UInt8 := 0x2E

/-- The path that is written in a program. -/
def of (s : String) : Path := Text.bytes s.toList

/-! ## Paths in messages -/

/-- A character of several bytes, of which some have been read. -/
structure Partial where
  /-- The digits of the code point that have been read. -/
  code : Nat
  /-- How many bytes are to come after the next one. -/
  more : Nat
  /-- The least byte that can come next. -/
  least : Nat := 0x80
  /-- The greatest byte that can come next. -/
  greatest : Nat := 0xBF

/-- What a byte that is no character by itself can be the first byte of. -/
def Partial.ofFirst? (b : Nat) : Option Partial :=
  if b < 0xC2 then none
  else if b < 0xE0 then some { code := b - 0xC0, more := 0 }
  else if b = 0xE0 then some { code := 0, more := 1, least := 0xA0 }
  else if b = 0xED then some { code := 13, more := 1, greatest := 0x9F }
  else if b < 0xF0 then some { code := b - 0xE0, more := 1 }
  else if b = 0xF0 then some { code := 0, more := 2, least := 0x90 }
  else if b < 0xF4 then some { code := b - 0xF0, more := 2 }
  else if b = 0xF4 then some { code := 4, more := 2, greatest := 0x8F }
  else none

theorem toNat_ofNat {n : Nat} (h : n < 0x100) : (UInt8.ofNat n).toNat = n := by
  rw [UInt8.toNat_ofNat', Nat.mod_eq_of_lt h]

/-- The mark in place of bytes that are no character. -/
def mark : Char := '\uFFFD'

/-- The text that shows bytes, after those of a character that has been begun. Bytes that begin a
character and do not go on with it are one mark together. -/
def shownFrom (begun : Option Partial) : List UInt8 → Text
  | [] => if begun.isSome then [mark] else []
  | b :: rest =>
    let b := b.toNat
    let afresh : Text :=
      if b < 0x80 then .ofNat b :: shownFrom none rest
      else
        match Partial.ofFirst? b with
        | some begun => shownFrom (some begun) rest
        | none => mark :: shownFrom none rest
    match begun with
    | none => afresh
    | some ⟨code, more, least, greatest⟩ =>
      if least ≤ b ∧ b ≤ greatest then
        let code := code * 0x40 + (b - 0x80)
        match more with
        | 0 => .ofNat code :: shownFrom none rest
        | more + 1 => shownFrom (some { code, more }) rest
      else mark :: afresh

/-- The text that shows a path. -/
def shownText (path : Path) : Text := shownFrom none path

/-- The path in a message. -/
def shown (path : Path) : String := .ofList path.shownText

/-! ## Texts as paths -/

/-- A byte of the first 128 is shown as it is. -/
theorem shownFrom_of_lt {n : Nat} (h : n < 0x80) (rest : List UInt8) :
    shownFrom none (.ofNat n :: rest) = .ofNat n :: shownFrom none rest := by
  have hn : (UInt8.ofNat n).toNat = n := toNat_ofNat (by omega)
  rw [shownFrom, hn]
  exact if_pos h

/-- A byte that starts a longer character is not shown before the bytes after it are known. -/
theorem shownFrom_of_first {n : Nat} {begun : Partial} (hleast : 0x80 ≤ n) (hgreatest : n < 0x100)
    (h : Partial.ofFirst? n = some begun) (rest : List UInt8) :
    shownFrom none (.ofNat n :: rest) = shownFrom (some begun) rest := by
  rw [shownFrom, toNat_ofNat hgreatest]
  simp only [if_neg (Nat.not_lt.2 hleast), h]

/-- The byte after the first one, or after another one, adds a digit to the code point. -/
theorem shownFrom_digit {digit code more least greatest : Nat} (hdigit : digit < 0x40)
    (hleast : least ≤ digit + 0x80) (hgreatest : digit + 0x80 ≤ greatest) (rest : List UInt8) :
    shownFrom (some ⟨code, more + 1, least, greatest⟩) (.ofNat (digit + 0x80) :: rest) =
      shownFrom (some { code := code * 0x40 + digit, more }) rest := by
  rw [shownFrom, toNat_ofNat (by omega)]
  simp only [if_pos (And.intro hleast hgreatest), Nat.add_sub_cancel]

/-- The last byte completes the character. -/
theorem shownFrom_last {digit code : Nat} (hdigit : digit < 0x40) (rest : List UInt8) :
    shownFrom (some { code, more := 0 }) (.ofNat (digit + 0x80) :: rest) =
      .ofNat (code * 0x40 + digit) :: shownFrom none rest := by
  have hrange : 0x80 ≤ digit + 0x80 ∧ digit + 0x80 ≤ 0xBF := by omega
  rw [shownFrom, toNat_ofNat (by omega)]
  simp only [if_pos hrange, Nat.add_sub_cancel]

/-- The first byte of a character of two bytes. -/
theorem ofFirst?_of_two {v : Nat} (hleast : 0x7F < v) (hgreatest : v ≤ 0x7FF) :
    Partial.ofFirst? (v / 64 + 0xC0) = some { code := v / 64, more := 0 } := by
  rw [Partial.ofFirst?, if_neg (by omega), if_pos (by omega), Nat.add_sub_cancel]

/-- The first byte of a character of three bytes, with bounds that the second one meets. -/
theorem exists_ofFirst?_of_three {v : Nat} (hleast : 0x7FF < v) (hgreatest : v ≤ 0xFFFF)
    (hplane : v < 0xD800 ∨ 0xDFFF < v) : ∃ least greatest,
      Partial.ofFirst? (v / 4096 + 0xE0) = some ⟨v / 4096, 1, least, greatest⟩ ∧
        least ≤ v / 64 % 64 + 0x80 ∧ v / 64 % 64 + 0x80 ≤ greatest := by
  by_cases hzero : v / 4096 = 0
  · exact ⟨0xA0, 0xBF, by rw [hzero]; rfl, by omega, by omega⟩
  by_cases hlast : v / 4096 = 13
  · exact ⟨0x80, 0x9F, by rw [hlast]; rfl, by omega, by omega⟩
  · refine ⟨0x80, 0xBF, ?_, by omega, by omega⟩
    rw [Partial.ofFirst?, if_neg (by omega), if_neg (by omega), if_neg (by omega),
      if_neg (by omega), if_pos (by omega), Nat.add_sub_cancel]

/-- The first byte of a character of four bytes, with bounds that the second one meets. -/
theorem exists_ofFirst?_of_four {v : Nat} (hleast : 0xFFFF < v) (hgreatest : v < 0x110000) :
    ∃ least greatest,
      Partial.ofFirst? (v / 262144 + 0xF0) = some ⟨v / 262144, 2, least, greatest⟩ ∧
        least ≤ v / 4096 % 64 + 0x80 ∧ v / 4096 % 64 + 0x80 ≤ greatest := by
  by_cases hzero : v / 262144 = 0
  · exact ⟨0x90, 0xBF, by rw [hzero]; rfl, by omega, by omega⟩
  by_cases hlast : v / 262144 = 4
  · exact ⟨0x80, 0x8F, by rw [hlast]; rfl, by omega, by omega⟩
  · refine ⟨0x80, 0xBF, ?_, by omega, by omega⟩
    rw [Partial.ofFirst?, if_neg (by omega), if_neg (by omega), if_neg (by omega),
      if_neg (by omega), if_neg (by omega), if_neg (by omega), if_pos (by omega),
      Nat.add_sub_cancel]

/-- The bytes of a character are shown as the character. -/
theorem shownFrom_utf8EncodeChar (c : Char) (rest : List UInt8) :
    shownFrom none (String.utf8EncodeChar c ++ rest) = c :: shownFrom none rest := by
  have hvalid : c.toNat < 0xD800 ∨ 0xDFFF < c.toNat ∧ c.toNat < 0x110000 := c.valid
  have hback : Char.ofNat c.toNat = c := Char.ofNat_toNat c
  rw [String.utf8EncodeChar, show c.val.toNat = c.toNat from rfl]
  generalize c.toNat = v at hvalid hback
  -- One case for each number of bytes; the digits of the code point are its remainders by 64.
  split
  · next hv => rw [List.singleton_append, shownFrom_of_lt (by omega), hback]
  split
  · next hv hv' =>
    have hfirst : v / 64 % 32 + 192 = v / 64 + 0xC0 := by omega
    have hcode : v / 64 * 0x40 + v % 64 = v := by omega
    rw [hfirst, List.cons_append, List.singleton_append, shownFrom_of_first (by omega) (by omega)
      (ofFirst?_of_two (Nat.lt_of_not_le hv) hv'), shownFrom_last (by omega), hcode, hback]
  split
  · next hv hv' =>
    obtain ⟨least, greatest, hfirst?, hleast, hgreatest⟩ :=
      exists_ofFirst?_of_three (Nat.lt_of_not_le hv) hv' (by omega)
    have hfirst : v / 4096 % 16 + 224 = v / 4096 + 0xE0 := by omega
    have hcode : (v / 4096 * 0x40 + v / 64 % 64) * 0x40 + v % 64 = v := by omega
    rw [hfirst, List.cons_append, List.cons_append, List.singleton_append,
      shownFrom_of_first (by omega) (by omega) hfirst?, shownFrom_digit (by omega) hleast hgreatest,
      shownFrom_last (by omega), hcode, hback]
  · next hv =>
    obtain ⟨least, greatest, hfirst?, hleast, hgreatest⟩ :=
      exists_ofFirst?_of_four (Nat.lt_of_not_le hv) (by omega)
    have hfirst : v / 262144 % 8 + 240 = v / 262144 + 0xF0 := by omega
    have hcode :
        ((v / 262144 * 0x40 + v / 4096 % 64) * 0x40 + v / 64 % 64) * 0x40 + v % 64 = v := by
      omega
    rw [hfirst, List.cons_append, List.cons_append, List.cons_append, List.singleton_append,
      shownFrom_of_first (by omega) (by omega) hfirst?, shownFrom_digit (by omega) hleast hgreatest,
      shownFrom_digit (by omega) (by omega) (by omega), shownFrom_last (by omega), hcode, hback]

/-- The path of a text is shown as the text. -/
theorem shownText_bytes (s : Text) : shownText s.bytes = s := by
  induction s with
  | nil => rfl
  | cons c s ih => rw [Text.bytes_cons, shownText, shownFrom_utf8EncodeChar, ← shownText, ih]

end Path

end Rulebook
