import LocalizationMemory.Decimal

/-!
# The numbers that texts denote

A text denotes a number if it consists of decimal digits, one at least, after one plus sign
or without a sign, and the number is the value of the digits. Reading a text goes from the
left and stops as soon as a bound is reached. As a value only grows with more digits, a
text is read exactly if it denotes a number below the bound.

## Main definitions

* `Decimal.Denotes` — a text denotes a number

## Main results

* `Decimal.parse_eq_ok_iff` — the texts that are read as numbers below a bound
* `Decimal.parseWord_eq_ok_iff` — the texts that are read as numbers of sixty-four bits
-/

namespace LocalizationMemory.Decimal

/-- A character is a decimal digit. -/
def IsDigit (c : Char) : Prop := '0' ≤ c ∧ c ≤ '9'

/-- What follows one plus sign, or all where there is none. -/
def withoutSign : List Char → List Char
  | '+' :: r => r
  | cs => cs

/-- A text denotes a number: it is made of decimal digits with this value, after one plus sign or
without a sign. -/
structure Denotes (text : String) (n : Nat) : Prop where
  nonempty : withoutSign text.toList ≠ []
  digits : ∀ c ∈ withoutSign text.toList, IsDigit c
  value : Nat.ofDigitChars 10 (withoutSign text.toList) 0 = n

theorem value?_eq_some_iff {c : Char} {d : Nat} :
    value? c = some d ↔ IsDigit c ∧ c.toNat - '0'.toNat = d := by
  rw [value?, Option.ite_none_right_eq_some, Option.some.injEq]
  exact Iff.rfl

/-- A value only grows with more digits. -/
theorem le_ofDigitChars (digits : List Char) (acc : Nat) :
    acc ≤ Nat.ofDigitChars 10 digits acc := by
  induction digits generalizing acc with
  | nil => exact Nat.le_refl acc
  | cons c r ih =>
    rw [Nat.ofDigitChars_cons]
    have step := ih (10 * acc + (c.toNat - '0'.toNat))
    omega

/-- Digits are read on from a value exactly if they stay below the bound to the end. -/
theorem readDigits_eq_ok_iff {bound acc n : Nat} {cs : List Char} (small : acc < bound) :
    readDigits bound acc cs = .ok n ↔
      (∀ c ∈ cs, IsDigit c) ∧ Nat.ofDigitChars 10 cs acc = n ∧ n < bound := by
  induction cs generalizing acc with
  | nil =>
    simp only [readDigits, Except.ok.injEq, Nat.ofDigitChars_nil]
    constructor
    · rintro rfl
      exact ⟨by simp, rfl, small⟩
    · exact fun h => h.2.1
  | cons c r ih =>
    rw [readDigits, List.forall_mem_cons, Nat.ofDigitChars_cons]
    cases hv : value? c with
    | none =>
      have other : ¬ IsDigit c := by
        intro digit
        rw [value?_eq_some_iff.mpr ⟨digit, rfl⟩] at hv
        cases hv
      simp [other]
    | some d =>
      obtain ⟨digit, rfl⟩ := value?_eq_some_iff.mp hv
      simp only [digit, true_and]
      split
      · next below => exact ih below
      · next above =>
        -- What has left the range does not come back into it.
        have grows := le_ofDigitChars r (10 * acc + (c.toNat - '0'.toNat))
        simp only [reduceCtorEq, false_iff, not_and]
        omega

/-- The texts that are read as numbers below a bound are those that denote one. -/
theorem parse_eq_ok_iff {bound n : Nat} {text : String} (positive : 0 < bound) :
    parse bound text = .ok n ↔ Denotes text n ∧ n < bound := by
  have denotes_iff : Denotes text n ↔ withoutSign text.toList ≠ [] ∧
      (∀ c ∈ withoutSign text.toList, IsDigit c) ∧
        Nat.ofDigitChars 10 (withoutSign text.toList) 0 = n :=
    ⟨fun h => ⟨h.nonempty, h.digits, h.value⟩, fun ⟨h, h', h''⟩ => ⟨h, h', h''⟩⟩
  rw [denotes_iff, parse]
  split
  · next empty => simp [empty, withoutSign]
  · next sign => simp [sign, withoutSign]
  · next r nonempty signed =>
    have rest : r ≠ [] := by
      rintro rfl
      exact nonempty rfl
    simp [signed, withoutSign, rest, readDigits_eq_ok_iff positive, and_assoc]
  · next nonempty _ unsigned =>
    have all : withoutSign text.toList = text.toList := by
      unfold withoutSign
      split
      · next r signed => exact absurd signed (unsigned r)
      · rfl
    have nonempty : text.toList ≠ [] := nonempty
    rw [all, readDigits_eq_ok_iff positive]
    simp [nonempty, and_assoc]

/-- The texts that are read as numbers of sixty-four bits. -/
theorem parseWord_eq_ok_iff {text : String} {w : UInt64} :
    parseWord text = .ok w ↔ Denotes text w.toNat := by
  have positive : 0 < UInt64.size := by decide
  have small : w.toNat < UInt64.size := w.toNat_lt
  rw [parseWord]
  constructor
  · intro read
    cases hp : parse UInt64.size text with
    | error fault =>
      rw [hp] at read
      cases read
    | ok n =>
      rw [hp] at read
      obtain rfl : UInt64.ofNat n = w := Except.ok.inj read
      obtain ⟨denotes, below⟩ := (parse_eq_ok_iff positive).mp hp
      rwa [UInt64.toNat_ofNat_of_lt' below]
  · intro denotes
    rw [(parse_eq_ok_iff positive).mpr ⟨denotes, small⟩]
    exact congrArg Except.ok UInt64.ofNat_toNat

end LocalizationMemory.Decimal
