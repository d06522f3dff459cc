import Mathlib.Data.String.Basic
import Mathlib.Tactic.SplitIfs
import LocalizationMemory.Text.Bytes

/-!
# The order of bytes

Texts are compared by their characters, and a database compares them by their bytes. UTF-8 is
made so that both orders are one. The first byte of a character tells how many follow,
and a greater first byte announces more of them; the bytes that follow are the digits
of the character in base sixty-four. So at the first difference of two texts the greater
character has the greater byte.

## Main results

* `Text.encoded_lt_encoded` — a greater character has greater bytes
* `Text.utf8_lt_utf8_iff` — texts are ordered as their bytes are
-/

namespace LocalizationMemory.Text

theorem ofNat_lt_ofNat_iff {m n : Nat} (hm : m < 256) (hn : n < 256) :
    UInt8.ofNat m < UInt8.ofNat n ↔ m < n := by
  rw [UInt8.lt_iff_toNat_lt, UInt8.toNat_ofNat_of_lt' hm, UInt8.toNat_ofNat_of_lt' hn]

theorem ofNat_eq_ofNat_iff {m n : Nat} (hm : m < 256) (hn : n < 256) :
    UInt8.ofNat m = UInt8.ofNat n ↔ m = n := by
  rw [← UInt8.toNat_inj, UInt8.toNat_ofNat_of_lt' hm, UInt8.toNat_ofNat_of_lt' hn]

/-- A greater character has greater bytes, whatever follows. -/
theorem encoded_lt_encoded {c d : Char} (lt : c < d) (r s : List UInt8) :
    String.utf8EncodeChar c ++ r < String.utf8EncodeChar d ++ s := by
  have lt : c.val.toNat < d.val.toNat := lt
  have last : d.val.toNat < 0x110000 := by
    rcases d.valid with low | ⟨-, high⟩
    · exact Nat.lt_trans low (by decide)
    · exact high
  simp only [String.utf8EncodeChar]
  generalize c.val.toNat = m at *
  generalize d.val.toNat = n at *
  -- The greater number has the greater digit in base sixty-four at the first difference.
  have digit (j k : Nat) (lt : j < k) : j / 64 < k / 64 ∨ j / 64 = k / 64 ∧ j % 64 < k % 64 := by
    omega
  have shift (k : Nat) : k / 64 / 64 = k / 4096 ∧ k / 4096 / 64 = k / 262144 :=
    ⟨Nat.div_div_eq_div_mul k 64 64, Nat.div_div_eq_div_mul k 4096 64⟩
  have first := digit (m / 4096) (n / 4096)
  have second := digit (m / 64) (n / 64)
  have third := digit m n lt
  rw [(shift m).2, (shift n).2] at first
  rw [(shift m).1, (shift n).1] at second
  have small (k : Nat) (below : k < 0x110000) : k / 262144 % 8 = k / 262144 := by omega
  have smallM := small m (by omega)
  have smallN := small n last
  -- With more bytes the first one is greater, and with as many the digits decide.
  split_ifs <;> first
    | omega
    | simp (disch := omega) only [List.cons_append, List.nil_append, List.cons_lt_cons_iff,
        ofNat_lt_ofNat_iff, ofNat_eq_ofNat_iff]
      omega

/-- The first character where two lists differ decides on their bytes. -/
theorem flatMap_encoded_lt {cs ds : List Char} (lt : cs < ds) :
    cs.flatMap String.utf8EncodeChar < ds.flatMap String.utf8EncodeChar := by
  induction lt with
  | @nil d ds =>
    cases bytes : String.utf8EncodeChar d with
    | nil => exact absurd bytes String.utf8EncodeChar_ne_nil
    | cons b r =>
      rw [List.flatMap_cons, bytes]
      exact List.nil_lt_cons b _
  | cons _ ih =>
    rw [List.flatMap_cons, List.flatMap_cons]
    exact List.append_left_lt ih
  | rel less =>
    rw [List.flatMap_cons, List.flatMap_cons]
    exact encoded_lt_encoded less _ _

/-- Texts are ordered as their bytes are. -/
theorem utf8_lt_utf8_iff {s t : String} : utf8 s < utf8 t ↔ s < t := by
  have bytes_lt {s t : String} (lt : s < t) : utf8 s < utf8 t :=
    flatMap_encoded_lt (String.lt_iff_toList_lt.mp lt)
  refine ⟨fun bytes => ?_, bytes_lt⟩
  rcases lt_trichotomy s t with lt | rfl | gt
  · exact lt
  · exact absurd bytes (List.lt_irrefl _)
  · exact absurd bytes (List.lt_asymm (bytes_lt gt))

end LocalizationMemory.Text
