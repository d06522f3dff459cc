import LocalizationMemory.Decimal.Shortest
import LocalizationMemory.Text.Quoted

/-!
# Why a JSON text is not a value of the wanted shape

A JSON text is read from the left with a shape in mind. What is wrong is either
the text itself, which no shape would accept, or a part that is well written but
of another shape. Each fault is a cause; its wording names what was found and what
was expected.

## Main definitions

* `Json.Found` — what stands where another shape is wanted
* `Json.Fault` — the causes, with `Json.Fault.message`
-/

namespace LocalizationMemory.Json

/-- What stands where another shape is wanted. -/
inductive Found where
  | null
  | boolean (value : Bool)
  | integer (value : Int)
  /-- A number with a fraction, an exponent or too many digits, by the bits of its value. -/
  | float (bits : UInt64)
  | text (value : String)
  | sequence
  | map
  deriving DecidableEq, Repr

/-- A float is positional from 0.00001 up to sixteen digits before the point, and
in scientific notation with a signed exponent otherwise. A whole number keeps one zero
after the point. -/
def floatFormat : Decimal.FloatFormat :=
  { leastPositional := -5, greatestPositional := 15, keepsZero := true
    signsExponent := true }

/-- The wording of what was found. -/
def Found.message : Found → String
  | null => "null"
  | boolean value => s!"boolean `{value}`"
  | integer value => s!"integer `{value}`"
  | float bits => s!"floating point `{Decimal.shortest floatFormat bits}`"
  | text value => s!"string {Text.quoted value}"
  | sequence => "sequence"
  | map => "map"

/-- The causes. -/
inductive Fault where
  /-- The text ends in a list, an object, a string or before a value is complete. -/
  | endInList
  | endInObject
  | endInString
  | endInValue
  | expectedColon
  | expectedCommaOrBracket
  | expectedCommaOrBrace
  /-- A word that is none of `true`, `false` and `null`. -/
  | expectedIdent
  | expectedValue
  | invalidEscape
  | invalidNumber
  | numberOutOfRange
  | controlCharacter
  | keyMustBeString
  /-- Half of a pair of escapes without the other half. -/
  | loneSurrogate
  | endOfHexEscape
  | trailingComma
  | trailingCharacters
  | invalidType (found : Found) (expected : String)
  | invalidValue (found : Found) (expected : String)
  | invalidLength (length : Nat) (expected : String)
  | missingField (name : String)
  | duplicateField (name : String)
  deriving DecidableEq, Repr

/-- The wording of a fault. -/
def Fault.message : Fault → String
  | endInList => "EOF while parsing a list"
  | endInObject => "EOF while parsing an object"
  | endInString => "EOF while parsing a string"
  | endInValue => "EOF while parsing a value"
  | expectedColon => "expected `:`"
  | expectedCommaOrBracket => "expected `,` or `]`"
  | expectedCommaOrBrace => "expected `,` or `\x7d`"
  | expectedIdent => "expected ident"
  | expectedValue => "expected value"
  | invalidEscape => "invalid escape"
  | invalidNumber => "invalid number"
  | numberOutOfRange => "number out of range"
  | controlCharacter => "control character (\\u0000-\\u001F) found while parsing a string"
  | keyMustBeString => "key must be a string"
  | loneSurrogate => "lone leading surrogate in hex escape"
  | endOfHexEscape => "unexpected end of hex escape"
  | trailingComma => "trailing comma"
  | trailingCharacters => "trailing characters"
  | invalidType found expected => s!"invalid type: {found.message}, expected {expected}"
  | invalidValue found expected => s!"invalid value: {found.message}, expected {expected}"
  | invalidLength length expected => s!"invalid length {length}, expected {expected}"
  | missingField name => s!"missing field `{name}`"
  | duplicateField name => s!"duplicate field `{name}`"

end LocalizationMemory.Json
