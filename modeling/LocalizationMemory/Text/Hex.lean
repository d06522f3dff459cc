/-!
# Bytes as hexadecimal text

Two lower-case digits for each byte, the high half first. A fingerprint is
written so, and content that is not text is given so.

## Main definitions

* `Hex.encode` — the text of a list of bytes
* `Hex.decode?` — the bytes of a text of digit pairs

## Main results

* `Hex.decode?_encode` — a written list of bytes is read back
-/

namespace LocalizationMemory.Hex

/-- The digit for a value below sixteen. -/
def digit (n : Nat) : Char :=
  if n < 10 then Char.ofNat (48 + n) else Char.ofNat (87 + n)

/-- The value of a hexadecimal digit of either case. -/
def value? (c : Char) : Option Nat :=
  let n := c.toNat
  if 48 ≤ n ∧ n ≤ 57 then some (n - 48)
  else if 97 ≤ n ∧ n ≤ 102 then some (n - 87)
  else if 65 ≤ n ∧ n ≤ 70 then some (n - 55)
  else none

/-- The digits of a list of bytes. -/
def encodeChars (bytes : List UInt8) : List Char :=
  bytes.flatMap fun b => [digit (b.toNat / 16), digit (b.toNat % 16)]

/-- The bytes of a list of digit pairs. -/
def decodeChars? : List Char → Option (List UInt8)
  | [] => some []
  | [_] => none
  | a :: b :: r => do
    let high ← value? a
    let low ← value? b
    let rest ← decodeChars? r
    return UInt8.ofNat (16 * high + low) :: rest

/-- The text of a list of bytes. -/
def encode (bytes : List UInt8) : String := String.ofList (encodeChars bytes)

/-- The bytes that a text of digit pairs stands for. -/
def decode? (s : String) : Option (List UInt8) := decodeChars? s.toList

theorem value?_digit : ∀ n < 16, value? (digit n) = some n := by decide

theorem decodeChars?_encodeChars (bytes : List UInt8) :
    decodeChars? (encodeChars bytes) = some bytes := by
  induction bytes with
  | nil => rfl
  | cons b r ih =>
    have hlt : b.toNat < 256 := b.toNat_lt
    rw [encodeChars, List.flatMap_cons, List.cons_append, List.cons_append, List.nil_append,
      ← encodeChars, decodeChars?, value?_digit _ (by omega), value?_digit _ (by omega), ih]
    have : 16 * (b.toNat / 16) + b.toNat % 16 = b.toNat := by omega
    simp only [bind, Option.bind, pure, this, UInt8.ofNat_toNat]

/-- A written list of bytes is read back. -/
theorem decode?_encode (bytes : List UInt8) : decode? (encode bytes) = some bytes := by
  rw [decode?, encode, String.toList_ofList, decodeChars?_encodeChars]

theorem encode_injective {bytes bytes' : List UInt8} (same : encode bytes = encode bytes') :
    bytes = bytes' := by
  have read := decode?_encode bytes
  rw [same, decode?_encode] at read
  exact (Option.some.inj read).symm

end LocalizationMemory.Hex
