/-!
# Unsigned decimal numbers in text

A setting that is a number is written in decimal digits, with one plus sign
allowed in front. It is read from the left, and the first digit that is none, or
that takes the value out of range, ends the reading.

## Main definitions

* `Decimal.Fault` — why a text is not such a number
* `Decimal.parse` — the number below a bound that a text stands for
* `Decimal.parseWord` — a number of sixty-four bits
-/

namespace LocalizationMemory.Decimal

/-- Why a text is not a number. -/
inductive Fault where
  | empty
  | invalidDigit
  | tooLarge
  deriving DecidableEq, Repr

/-- The text of a fault. -/
def Fault.message : Fault → String
  | empty => "cannot parse integer from empty string"
  | invalidDigit => "invalid digit found in string"
  | tooLarge => "number too large to fit in target type"

/-- The value of a decimal digit. -/
def value? (c : Char) : Option Nat :=
  if 48 ≤ c.toNat ∧ c.toNat ≤ 57 then some (c.toNat - 48) else none

/-- Read digits on from a value, below a bound. -/
def readDigits (bound : Nat) : Nat → List Char → Except Fault Nat
  | acc, [] => .ok acc
  | acc, c :: r =>
    match value? c with
    | none => .error .invalidDigit
    | some d => if 10 * acc + d < bound then readDigits bound (10 * acc + d) r else .error .tooLarge

/-- The number below a bound that a text stands for. -/
def parse (bound : Nat) (text : String) : Except Fault Nat :=
  match text.toList with
  | [] => .error .empty
  | ['+'] => .error .invalidDigit
  | '+' :: r => readDigits bound 0 r
  | cs => readDigits bound 0 cs

/-- The number of sixty-four bits that a text stands for. -/
def parseWord (text : String) : Except Fault UInt64 := (parse UInt64.size text).map UInt64.ofNat

end LocalizationMemory.Decimal
