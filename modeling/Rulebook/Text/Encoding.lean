import Rulebook.Text.Basic

/-!
# UTF-8

`encode` gives the bytes of a text and `decode?` the text of bytes, if they are the UTF-8
form of one. Each undoes the other (`decode?_encode`, `encode_of_decode?`).
-/

namespace Rulebook.Text

/-- The bytes of the UTF-8 form. -/
def encode (s : Text) : ByteArray := (String.ofList s).toByteArray

/-- The text that the bytes are the UTF-8 form of. -/
def decode? (bytes : ByteArray) : Option Text := (String.fromUTF8? bytes).map String.toList

/-- The bytes of a text are read as the text. -/
theorem decode?_encode (s : Text) : decode? (encode s) = some s := by
  have hvalid : (encode s).IsValidUTF8 := (String.ofList s).isValidUTF8
  have hback : String.fromUTF8 (encode s) hvalid = String.ofList s := rfl
  simp [decode?, String.fromUTF8?, hvalid, hback]

/-- Bytes that are read as a text are its bytes. -/
theorem encode_of_decode? {bytes : ByteArray} {s : Text} (h : decode? bytes = some s) :
    encode s = bytes := by
  unfold decode? String.fromUTF8? at h
  split at h
  · simp only [Option.map_some, Option.some.injEq] at h
    simp [encode, ← h, String.fromUTF8]
  · simp at h

end Rulebook.Text
