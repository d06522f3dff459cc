/-!
# The shortest decimal that reads back

A binary floating point number stands for an interval of reals, those that round
to it. Of all decimals in the interval, the one with the fewest digits is
printed, and of those the one nearest to the number. All arithmetic is exact, on
natural numbers.

## Main definitions

* `Binary` — a number `mantissa · 2 ^ exponent` and the reals that round to it
* `shortestDigits` — the digits and the decimal exponent of the shortest decimal
* `FloatFormat` — where a decimal is written positionally, and how an exponent looks
* `shortest` — the text of the number with the given bits
-/

namespace LocalizationMemory.Decimal

/-- A finite positive number of sixty-four bits: `mantissa · 2 ^ exponent`. The
reals below it that round to it end half way to its lower neighbour, which is
nearer by half just above a power of two. -/
structure Binary where
  mantissa : Nat
  exponent : Int
  lowerIsNearer : Bool

/-- The number with the given bits, without its sign. -/
def Binary.ofBits (bits : UInt64) : Binary :=
  let fraction : Nat := bits.toNat % Nat.pow 2 52
  let biased : Nat := bits.toNat / Nat.pow 2 52 % Nat.pow 2 11
  if biased = 0 then ⟨fraction, -1074, false⟩
  else ⟨Nat.pow 2 52 + fraction, Int.ofNat biased - 1075, fraction == 0 && decide (1 < biased)⟩

/-- A fraction of natural numbers. -/
structure Ratio where
  num : Nat
  den : Nat

/-- `mantissa · 2 ^ exponent` as a fraction. -/
def Ratio.scaled (mantissa : Nat) (exponent : Int) : Ratio :=
  if exponent < 0 then ⟨mantissa, Nat.pow 2 exponent.natAbs⟩
  else ⟨mantissa * Nat.pow 2 exponent.natAbs, 1⟩

/-- The lower end of the interval, the number and the upper end, as numerators
over the same denominator. -/
structure Interval where
  (lower value upper den : Nat)
  closed : Bool

/-- The interval of the reals that round to a number; its ends belong to it when
the mantissa is even. -/
def Binary.interval (x : Binary) : Interval :=
  -- In quarters of the last place, half way up is two of them and half way down one or two.
  let unit := Ratio.scaled 1 x.exponent
  let value := 4 * x.mantissa * unit.num
  { lower := value - (if x.lowerIsNearer then 1 else 2) * unit.num
    value := value
    upper := value + 2 * unit.num
    den := 4 * unit.den
    closed := x.mantissa % 2 == 0 }

/-- `digits · 10 ^ exponent` lies in the interval. -/
def Interval.contains (i : Interval) (digits : Nat) (exponent : Int) : Bool :=
  let p := digits * Nat.pow 10 exponent.toNat * i.den
  let s := Nat.pow 10 (-exponent).toNat
  if i.closed then decide (i.lower * s ≤ p ∧ p ≤ i.upper * s)
  else decide (i.lower * s < p ∧ p < i.upper * s)

/-- On the grid of multiples of `10 ^ exponent`, the multiples next to the number
that lie in the interval; of two, the nearer one, and the even one of a tie. -/
def Interval.onGrid? (i : Interval) (exponent : Int) : Option Nat :=
  let num := i.value * Nat.pow 10 (-exponent).toNat
  let den := i.den * Nat.pow 10 exponent.toNat
  let below := num / den
  let below? := i.contains below exponent
  let above? := i.contains (below + 1) exponent
  let twice := 2 * (num % den)
  match below?, above? with
  | true, true =>
    some (if twice < den || (twice == den && below % 2 == 0) then below else below + 1)
  | true, false => some below
  | false, true => some (below + 1)
  | false, false => none

/-- The first grid, from coarse to fine, that has a point in the interval. -/
def Interval.search (i : Interval) : Nat → Int → Nat × Int
  | 0, exponent =>
    (i.value * Nat.pow 10 (-exponent).toNat / (i.den * Nat.pow 10 exponent.toNat), exponent)
  | steps + 1, exponent =>
    match i.onGrid? exponent with
    | some digits => if digits = 0 then i.search steps (exponent - 1) else (digits, exponent)
    | none => i.search steps (exponent - 1)

/-- Move the zeros at the end of the digits into the exponent. -/
def stripZeros : Nat → Nat → Int → Nat × Int
  | 0, digits, exponent => (digits, exponent)
  | steps + 1, digits, exponent =>
    if digits % 10 = 0 ∧ digits ≠ 0 then stripZeros steps (digits / 10) (exponent + 1)
    else (digits, exponent)

/-- The digits and the exponent of the shortest decimal of a positive number. -/
def shortestDigits (x : Binary) : Nat × Int :=
  -- The grids reach from above the greatest number to below the smallest.
  let p := x.interval.search 700 310
  stripZeros 20 p.1 p.2

/-- Where a decimal is written positionally, and how an exponent looks. -/
structure FloatFormat where
  /-- The least exponent of the first digit that is written positionally. -/
  leastPositional : Int
  /-- The greatest exponent of the first digit that is written positionally. -/
  greatestPositional : Int
  /-- A whole number has a zero after the point. -/
  keepsZero : Bool
  /-- An exponent that is not negative has a plus sign. -/
  signsExponent : Bool

/-- The decimal digits of a number. -/
def digitChars (n : Nat) : List Char := Nat.toDigits 10 n

/-- The text of an exponent. -/
def FloatFormat.exponentText (format : FloatFormat) (e : Int) : String :=
  let sign := if e < 0 then "-" else if format.signsExponent then "+" else ""
  sign ++ String.ofList (digitChars e.natAbs)

/-- The text of `digits · 10 ^ exponent`. -/
def FloatFormat.write (format : FloatFormat) (digits : Nat) (exponent : Int) : String :=
  let ds := digitChars digits
  -- The exponent of the first digit decides the notation.
  let first := exponent + ds.length - 1
  if format.leastPositional ≤ first ∧ first ≤ format.greatestPositional then
    if 0 ≤ exponent then
      let zeros := List.replicate exponent.toNat '0'
      String.ofList (ds ++ zeros) ++ (if format.keepsZero then ".0" else "")
    else if 0 ≤ first then
      String.ofList (ds.take (first.toNat + 1)) ++ "." ++ String.ofList (ds.drop (first.toNat + 1))
    else "0." ++ String.ofList (List.replicate (-first - 1).toNat '0' ++ ds)
  else
    let tail := ds.drop 1
    String.ofList (ds.take 1) ++ (if tail.isEmpty then "" else "." ++ String.ofList tail) ++ "e" ++
      format.exponentText first

/-- The text of the finite number with the given bits. -/
def shortest (format : FloatFormat) (bits : UInt64) : String :=
  let sign := if bits.toNat / Nat.pow 2 63 = 1 then "-" else ""
  let x := Binary.ofBits bits
  if x.mantissa = 0 then sign ++ "0" ++ (if format.keepsZero then ".0" else "")
  else
    let p := shortestDigits x
    sign ++ format.write p.1 p.2

end LocalizationMemory.Decimal
