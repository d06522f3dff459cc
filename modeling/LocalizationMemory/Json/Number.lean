import LocalizationMemory.Json.Reader

/-!
# Numbers in JSON

A number without a fraction or an exponent that fits into sixty-four bits is an
integer. Any other number is a float: its digits are gathered as long as they fit
into sixty-four bits, the digits after that only count, and the float is the
gathered digits times or through a power of ten, rounded after each step. A number
that is of no interest is skipped by its form alone.

## Main definitions

* `Json.Number` — an integer or a float
* `Json.readNumber` — the number after its sign
* `Json.skipNumber` — skip the number after its sign
-/

namespace LocalizationMemory.Json

/-- An integer of sixty-four bits, with or without a sign, or a float. -/
inductive Number where
  | integer (value : Int)
  | float (value : Float)

/-- A number as it is reported where another shape is wanted. -/
def Number.found : Number → Found
  | integer value => .integer value
  | float value => .float value.toBits

/-! ### Floats -/

/-- A power of ten, rounded. -/
def powerOfTen (exponent : Nat) : Float := Float.ofScientific 1 false exponent

/-- The greatest exponent of a power of ten that is no infinity. -/
def greatestExponent : Nat := 308

/-- A float divided by a power of ten, in steps that a float can hold. -/
def divideDown (value : Float) (exponent : Nat) : Float :=
  if exponent ≤ greatestExponent then value / powerOfTen exponent
  else if value == 0 then value
  else divideDown (value / powerOfTen greatestExponent) (exponent - greatestExponent)
termination_by exponent
decreasing_by simp only [greatestExponent] at *; omega

/-- A float times a power of ten. -/
def scale (value : Float) (exponent : Int) : Except Fault Float :=
  if exponent < 0 then .ok (divideDown value exponent.natAbs)
  else if exponent.natAbs ≤ greatestExponent then
    let product := value * powerOfTen exponent.natAbs
    if product.isInf then .error .numberOutOfRange else .ok product
  else if value == 0 then .ok value
  else .error .numberOutOfRange

/-- A float with its sign. -/
def signed (positive : Bool) (value : Float) : Float := if positive then value else -value

/-- The float of digits times a power of ten. -/
def floatOf (positive : Bool) (digits : Nat) (exponent : Int) : Except Fault Number :=
  match scale (UInt64.ofNat digits).toFloat exponent with
  | .ok value => .ok (.float (signed positive value))
  | .error fault => .error fault

/-- The number of digits without a fraction or an exponent. A zero with a minus sign,
and a negative number that does not fit, are floats. -/
def integerOf (positive : Bool) (digits : Nat) : Number :=
  if positive then .integer digits
  else if 0 < digits ∧ digits ≤ Nat.pow 2 63 then .integer (-digits)
  else .float (-(UInt64.ofNat digits).toFloat)

/-! ### Digits -/

/-- Gather digits after those that are there, as long as the value fits into
sixty-four bits; the digits left over come second. -/
def gather : Nat → List Char → Nat × List Char
  | value, [] => (value, [])
  | value, c :: r =>
    if 10 * value + digitValue c < UInt64.size then gather (10 * value + digitValue c) r
    else (value, c :: r)

/-- The digits at the start of a text. -/
def digitsOf (cs : List Char) : List Char := cs.takeWhile isDigit

/-- What comes after the digits at the start of a text. -/
def afterDigits (cs : List Char) : List Char := cs.dropWhile isDigit

theorem length_afterDigits_le (cs : List Char) : (afterDigits cs).length ≤ cs.length :=
  length_dropWhile_le _ _

/-- The greatest exponent that is counted. -/
def countedExponent : Nat := Nat.pow 2 31 - 1

/-- The value of an exponent, if it is counted. -/
def exponentValue? : Nat → List Char → Option Nat
  | value, [] => some value
  | value, c :: r =>
    if 10 * value + digitValue c ≤ countedExponent then exponentValue? (10 * value + digitValue c) r
    else none

/-- The sign of an exponent, and what comes after it. -/
def exponentSign (cs : List Char) : Bool × RestOrAll cs :=
  match cs with
  | '+' :: r => (true, .after '+' (.all r))
  | '-' :: r => (false, .after '-' (.all r))
  | cs => (true, .all cs)

/-- The float of digits times a power of ten, where the power is changed by the
exponent that follows its letter. -/
def readExponent (positive : Bool) (digits : Nat) (exponent : Int) (cs : List Char) :
    Except Fault (Number × RestOrAll cs) :=
  let (up, start) := exponentSign cs
  match start.1 with
  | [] => .error .endInValue
  | c :: _ =>
    if isDigit c then
      let rest : RestOrAll cs :=
        ⟨afterDigits start.1, Nat.le_trans (length_afterDigits_le _) start.2⟩
      match exponentValue? 0 (digitsOf start.1) with
      | some e =>
        match floatOf positive digits (if up then exponent + e else exponent - e) with
        | .ok number => .ok (number, rest)
        | .error fault => .error fault
      -- An exponent too large to count makes the number too large, or else zero.
      | none =>
        if up && digits != 0 then .error .numberOutOfRange
        else .ok (.float (signed positive 0), rest)
    else .error .invalidNumber

/-- The letter of an exponent. -/
def isExponentMark (c : Char) : Bool := c == 'e' || c == 'E'

/-- The float of digits times a power of ten, with the exponent if there is one. -/
def readScaled (positive : Bool) (digits : Nat) (exponent : Int) (cs : List Char) :
    Except Fault (Number × RestOrAll cs) :=
  match cs with
  | c :: r =>
    if isExponentMark c then
      match readExponent positive digits exponent r with
      | .ok (number, rest) => .ok (number, rest.after c)
      | .error fault => .error fault
    else (floatOf positive digits exponent).map fun number => (number, .all (c :: r))
  | [] => (floatOf positive digits exponent).map fun number => (number, .all [])

/-- The float of digits times a power of ten and of the fraction that follows the point. -/
def readFraction (positive : Bool) (digits : Nat) (exponent : Int) (cs : List Char) :
    Except Fault (Number × RestOrAll cs) :=
  if (digitsOf cs).isEmpty then .error (if cs.isEmpty then .endInValue else .invalidNumber)
  else
    -- A digit of the fraction that is gathered takes one from the power of ten.
    let (all, leftOver) := gather digits (digitsOf cs)
    let counted : Int := Int.ofNat (digitsOf cs).length - Int.ofNat leftOver.length
    match readScaled positive all (exponent - counted) (afterDigits cs) with
    | .ok (number, rest) => .ok (number, ⟨rest.1, Nat.le_trans rest.2 (length_afterDigits_le _)⟩)
    | .error fault => .error fault

/-- The number after its whole part. -/
def readAfterWhole (positive : Bool) (digits skipped : Nat) (cs : List Char) :
    Except Fault (Number × RestOrAll cs) :=
  match cs with
  | '.' :: r =>
    match readFraction positive digits skipped r with
    | .ok (number, rest) => .ok (number, rest.after '.')
    | .error fault => .error fault
  | cs =>
    if skipped = 0 && !(cs.head?.any isExponentMark) then
      .ok (integerOf positive digits, .all cs)
    else readScaled positive digits skipped cs

/-- The number after its sign. A zero at the start stands alone. -/
def readNumber (positive : Bool) : Reader Number := fun cs =>
  match cs with
  | [] => .error .endInValue
  | c :: r =>
    if c = '0' then
      if r.head?.any isDigit then .error .invalidNumber
      else
        match readAfterWhole positive 0 0 r with
        | .ok (number, rest) => .ok (number, rest.below c)
        | .error fault => .error fault
    else if isDigit c then
      let (digits, leftOver) := gather (digitValue c) (digitsOf r)
      match readAfterWhole positive digits leftOver.length (afterDigits r) with
      | .ok (number, rest) =>
        .ok (number, ⟨rest.1, Nat.lt_succ_of_le (Nat.le_trans rest.2 (length_afterDigits_le _))⟩)
      | .error fault => .error fault
    else .error .invalidNumber

/-! ### Skipping -/

/-- Skip the digits of which there has to be one. -/
def skipDigits : Reader Unit := fun cs =>
  match cs with
  | c :: r =>
    if isDigit c then .ok ((), ⟨afterDigits r, Nat.lt_succ_of_le (length_afterDigits_le _)⟩)
    else .error .invalidNumber
  | [] => .error .invalidNumber

/-- Skip an exponent, if there is one. -/
def skipExponent (cs : List Char) : Except Fault (RestOrAll cs) :=
  match cs with
  | c :: r =>
    if isExponentMark c then
      let start := (exponentSign r).2
      match skipDigits start.1 with
      | .ok (_, rest) =>
        .ok ⟨rest.1, Nat.le_succ_of_le (Nat.le_trans (Nat.le_of_lt rest.2) start.2)⟩
      | .error fault => .error fault
    else .ok (.all (c :: r))
  | [] => .ok (.all [])

/-- Skip a fraction and an exponent, if there are any. -/
def skipAfterWhole (cs : List Char) : Except Fault (RestOrAll cs) :=
  match cs with
  | '.' :: r =>
    match skipDigits r with
    | .ok (_, rest) =>
      match skipExponent rest.1 with
      | .ok after => .ok ((rest.trans after).after '.')
      | .error fault => .error fault
    | .error fault => .error fault
  | cs => skipExponent cs

/-- Skip the number after its sign. -/
def skipNumber : Reader Unit := fun cs =>
  match cs with
  | '0' :: r =>
    if r.head?.any isDigit then .error .invalidNumber
    else
      match skipAfterWhole r with
      | .ok rest => .ok ((), rest.below '0')
      | .error fault => .error fault
  | cs =>
    match skipDigits cs with
    | .ok (_, rest) =>
      match skipAfterWhole rest.1 with
      | .ok after => .ok ((), ⟨after.1, Nat.lt_of_le_of_lt after.2 rest.2⟩)
      | .error fault => .error fault
    | .error fault => .error fault

end LocalizationMemory.Json
