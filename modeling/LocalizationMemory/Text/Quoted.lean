import LocalizationMemory.Text.Hidden

/-!
# Quoted text for messages

A message that shows a text shows it in double quotes, with escapes for what a
reader could not see or would misread: a quote, a backslash, and characters that
do not show, by a letter or by their number.

## Main definitions

* `quoted` — a text in quotes
-/

namespace LocalizationMemory.Text

/-- The escape of a character by its number, in hexadecimal digits. -/
def numberEscape (c : Char) : List Char := ['\\', 'u', '{'] ++ Nat.toDigits 16 c.toNat ++ ['}']

/-- A character as it stands in quotes. -/
def quotedChar (c : Char) : List Char :=
  if c.toNat = 0 then ['\\', '0']
  else if c = '\t' then ['\\', 't']
  else if c = '\r' then ['\\', 'r']
  else if c = '\n' then ['\\', 'n']
  else if c = '\\' then ['\\', '\\']
  else if c = '"' then ['\\', '"']
  else if isHidden c then numberEscape c
  else [c]

/-- A text in double quotes. -/
def quoted (s : String) : String :=
  "\"" ++ String.ofList (s.toList.flatMap quotedChar) ++ "\""

end LocalizationMemory.Text
