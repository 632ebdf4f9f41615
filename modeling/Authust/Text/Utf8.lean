import Mathlib.Data.List.Basic

/-! # Lossy decoding of text

Bytes that are the encoding of a text decode to it. Where they are not, each longest part that
begins a character and does not go on as one is replaced.
-/

namespace Utf8

/-- How many bytes the character that begins with the byte has; `1` where none does. -/
def width (first : UInt8) : Nat :=
  if 0xC2 ≤ first ∧ first ≤ 0xDF then 2
  else if 0xE0 ≤ first ∧ first ≤ 0xEF then 3
  else if 0xF0 ≤ first ∧ first ≤ 0xF4 then 4
  else 1

def continues (byte : UInt8) : Bool := 0x80 ≤ byte && byte ≤ 0xBF

/-- The second bytes of a character: neither overlong, nor a surrogate, nor too large. -/
def seconds (first byte : UInt8) : Bool :=
  if first = 0xE0 then 0xA0 ≤ byte && byte ≤ 0xBF
  else if first = 0xED then 0x80 ≤ byte && byte ≤ 0x9F
  else if first = 0xF0 then 0x90 ≤ byte && byte ≤ 0xBF
  else if first = 0xF4 then 0x80 ≤ byte && byte ≤ 0x8F
  else continues byte

/-- The length of the part that is replaced: as far as the bytes could still be a character. -/
def replacedLength : List UInt8 → Nat
  | first :: second :: rest =>
      if 1 < width first ∧ seconds first second then
        2 + ((rest.take (width first - 3)).takeWhile continues).length
      else 1
  | bytes => bytes.length

/-- The characters of the bytes, with `U+FFFD` for what is replaced; `fuel` bounds their number. -/
def replaceInvalid : Nat → List UInt8 → List Char
  | 0, _ => []
  | _, [] => []
  | fuel + 1, bytes =>
      match ByteArray.utf8DecodeChar? ⟨bytes.toArray⟩ 0 with
      | some char => char :: replaceInvalid fuel (bytes.drop char.utf8Size)
      | none => '\uFFFD' :: replaceInvalid fuel (bytes.drop (replacedLength bytes))

/-- `String::from_utf8_lossy` -/
def fromUtf8Lossy (bytes : ByteArray) : String :=
  match String.fromUTF8? bytes with
  | some text => text
  | none => String.ofList (replaceInvalid bytes.size bytes.data.toList)

/-- `String::from_utf8` accepts the encoding of a text, and nothing else. -/
theorem fromUTF8?_eq_some_iff {bytes : ByteArray} {text : String} :
    String.fromUTF8? bytes = some text ↔ bytes = text.toUTF8 := by
  constructor
  · intro htext
    unfold String.fromUTF8? at htext
    split at htext
    · cases htext
      rfl
    · cases htext
  · rintro rfl
    exact dif_pos text.isValidUTF8

/-- A text survives being decoded lossily. -/
theorem fromUtf8Lossy_toUTF8 (text : String) : fromUtf8Lossy text.toUTF8 = text := by
  rw [fromUtf8Lossy, fromUTF8?_eq_some_iff.mpr rfl]

example : fromUtf8Lossy ⟨#[0x61, 0xE2, 0x82, 0x62, 0xFF, 0xF0, 0x9F, 0x98]⟩ =
    "a\uFFFDb\uFFFD\uFFFD" := by decide +kernel

end Utf8
