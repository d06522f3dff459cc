/-!
# The bytes of a text

Texts are cut at a number of bytes, where a character takes one to four of them.

## Main definitions

* `Text.utf8` — the bytes of a text
* `Text.takeBytes?` — the characters that fill so many bytes at the start of a list

## Main results

* `Text.utf8_join` — the bytes of texts that are joined
* `Text.utf8_injective` — different texts have different bytes
-/

namespace LocalizationMemory.Text

/-- The UTF-8 bytes of a text. -/
def utf8 (text : String) : List UInt8 := text.toList.flatMap String.utf8EncodeChar

/-- The bytes of texts, one after the other, are those of the texts joined. -/
theorem utf8_join (texts : List String) : utf8 (String.join texts) = texts.flatMap utf8 := by
  rw [utf8, String.toList_join, List.flatMap_assoc]
  rfl

/-- Different texts have different bytes. -/
theorem utf8_injective {s t : String} (same : utf8 s = utf8 t) : s = t := by
  rw [← String.toByteArray_inj, ← String.utf8Encode_toList, ← String.utf8Encode_toList]
  exact congrArg List.toByteArray same

/-- The characters that fill exactly `n` bytes at the start of a list, if some do. -/
def takeBytes? : Nat → List Char → Option (List Char)
  | 0, _ => some []
  | _ + 1, [] => none
  | n + 1, c :: r =>
    if c.utf8Size ≤ n + 1 then (takeBytes? (n + 1 - c.utf8Size) r).map (c :: ·) else none

end LocalizationMemory.Text
