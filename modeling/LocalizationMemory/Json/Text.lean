import LocalizationMemory.Json.Reader
import LocalizationMemory.Text.Hex

/-!
# Strings in JSON

A string ends at the first quote that is not escaped. A character beyond the first
plane can be escaped as two halves, each with four hexadecimal digits. A string that
is of no interest is skipped: its escapes have to be well formed one by one, but
halves need not be paired.

## Main definitions

* `Json.readText` — the string after its opening quote
* `Json.skipText` — skip the string after its opening quote
-/

namespace LocalizationMemory.Json

/-! ### Escapes -/

/-- The value of four hexadecimal digits. The text has to go on for four bytes. -/
def readHexDigits : Reader Nat := fun cs =>
  match cs with
  | a :: b :: c :: d :: r =>
    match Hex.value? a, Hex.value? b, Hex.value? c, Hex.value? d with
    | some a, some b, some c, some d =>
      .ok (((a * 16 + b) * 16 + c) * 16 + d, ⟨r, by simp only [List.length_cons]; omega⟩)
    | _, _, _, _ => .error .invalidEscape
  | cs => if 4 ≤ (String.ofList cs).utf8ByteSize then .error .invalidEscape else .error .endInString

/-- The first half of a pair. -/
def isLeading (n : Nat) : Bool := 0xD800 ≤ n && n ≤ 0xDBFF

/-- The second half of a pair. -/
def isTrailing (n : Nat) : Bool := 0xDC00 ≤ n && n ≤ 0xDFFF

/-- The character of a pair of halves. -/
def joinHalves (leading trailing : Nat) : Char :=
  Char.ofNat ((leading - 0xD800) * 0x400 + (trailing - 0xDC00) + 0x10000)

/-- The mark that opens the second escape of a pair. -/
def readPairMark : Reader Unit := fun cs =>
  match cs with
  | [] => .error .endInString
  | ['\\'] => .error .endInString
  | '\\' :: 'u' :: r => .ok ((), ⟨r, by simp only [List.length_cons]; omega⟩)
  | _ => .error .endOfHexEscape

/-- The second half of a pair, with its mark. -/
def readSecondHalf (leading : Nat) : Reader Char :=
  readPairMark.andThen fun _ => readHexDigits.judge fun n =>
    if isTrailing n then .ok (joinHalves leading n) else .error .loneSurrogate

/-- The character that an escape with digits stands for. -/
def readCodePoint : Reader Char := fun cs =>
  match readHexDigits cs with
  | .error fault => .error fault
  | .ok (n, r) =>
    if isTrailing n then .error .loneSurrogate
    else if isLeading n then widenRest r (readSecondHalf n r.1)
    else .ok (Char.ofNat n, r)

/-- The character that an escape with digits stands for, where halves may stand alone. -/
def readAnyCodePoint : Reader Char := readHexDigits.map Char.ofNat

/-- The character that an escape of one letter stands for. -/
def escaped? (c : Char) : Option Char :=
  match c with
  | '"' => some '"'
  | '\\' => some '\\'
  | '/' => some '/'
  | 'b' => some '\x08'
  | 'f' => some '\x0c'
  | 'n' => some '\n'
  | 'r' => some '\r'
  | 't' => some '\t'
  | _ => none

/-- The character that an escape stands for, after its backslash. -/
def readEscape (codePoint : Reader Char) : Reader Char := fun cs =>
  match cs with
  | [] => .error .endInString
  | 'u' :: r => widenAfter 'u' (codePoint r)
  | c :: r =>
    match escaped? c with
    | some d => .ok (d, .tail c r)
    | none => .error .invalidEscape

/-! ### Strings -/

/-- The characters up to the closing quote. -/
def readChars (codePoint : Reader Char) (cs : List Char) :
    Except Fault (List Char × Rest cs) :=
  match cs with
  | [] => .error .endInString
  | '"' :: r => .ok ([], .tail '"' r)
  | c :: r =>
    -- An escape is read before the rest of the string, so its fault is reported first.
    if c = '\\' then
      match readEscape codePoint r with
      | .error fault => .error fault
      | .ok (d, rest) =>
        match readChars codePoint rest.1 with
        | .error fault => .error fault
        | .ok (ds, after) =>
          .ok (d :: ds, after.widen (Nat.le_succ_of_le (Nat.le_of_lt rest.2)))
    else if c.toNat < 0x20 then .error .controlCharacter
    else
      match readChars codePoint r with
      | .error fault => .error fault
      | .ok (ds, after) => .ok (c :: ds, after.widen (Nat.le_succ _))
termination_by cs.length
decreasing_by
  · exact Nat.lt_succ_of_lt rest.2
  · exact Nat.lt_succ_self _

/-- The string after its opening quote. -/
def readText : Reader String := Reader.map String.ofList (readChars readCodePoint)

/-- Skip the string after its opening quote. -/
def skipText : Reader Unit := Reader.map (fun _ => ()) (readChars readAnyCodePoint)

end LocalizationMemory.Json
