import LocalizationMemory.Text.Blank

/-!
# Keys of lines

A line of a source file is named by a *key*. The same key is spelled in several
ways: with blanks around it, with a colon at its end, and with a *revision*, a
colon and a number as in `greeting:3`. Normalizing removes the first two and
keeps the third, which is part of the key.

## Main definitions

* `Key.normalize` — a key without the blanks around it and without one final colon
* `Key.splitRevision` — the base and the revision of a revisioned key

## Main results

* `Key.trim_normalize` — a normalized key has no blanks around it
* `Key.splitRevision_eq_some_iff` — a key splits exactly when it is a base, a
  colon and a revision
-/

namespace LocalizationMemory.Key

/-- A list of characters without its final colon, if it has one. -/
def dropFinalColon? (cs : List Char) : Option (List Char) :=
  match cs.reverse with
  | ':' :: r => some r.reverse
  | _ => none

/-- The characters of a normalized key. -/
def normalizeChars (raw : List Char) : List Char :=
  let cs := Text.trimChars raw
  match dropFinalColon? cs with
  | some base => Text.trimChars base
  | none => cs

/-- A key without the blanks around it and without one final colon. A second
colon stays, and so does a revision. -/
def normalize (raw : String) : String := String.ofList (normalizeChars raw.toList)

/-- A decimal digit of the ASCII range. -/
def isDigit (c : Char) : Bool := 48 ≤ c.toNat && c.toNat ≤ 57

/-- The base and the revision of a list of characters: what stands before and
after the last colon, if both hold something and the second only digits. -/
def splitRevisionChars (cs : List Char) : Option (List Char × List Char) :=
  -- Seen from the end, the digits come first and the last colon right after them.
  let backwards := cs.reverse
  let digits := backwards.takeWhile isDigit
  match backwards.dropWhile isDigit with
  | ':' :: base => if digits = [] ∨ base = [] then none else some (base.reverse, digits.reverse)
  | _ => none

/-- The base and the revision of a revisioned key. -/
def splitRevision (key : String) : Option (String × String) :=
  (splitRevisionChars key.toList).map fun p => (String.ofList p.1, String.ofList p.2)

/-- The key is a base with a revision. -/
def isRevisioned (key : String) : Bool := (splitRevision key).isSome

@[simp] theorem toList_normalize (raw : String) :
    (normalize raw).toList = normalizeChars raw.toList := by
  simp [normalize]

theorem trimChars_normalizeChars (raw : List Char) :
    Text.trimChars (normalizeChars raw) = normalizeChars raw := by
  unfold normalizeChars
  dsimp only
  split <;> exact Text.trimChars_trimChars _

/-- A normalized key has no blanks around it. -/
theorem trim_normalize (raw : String) : Text.trim (normalize raw) = normalize raw := by
  rw [← String.toList_inj, Text.toList_trim, toList_normalize, trimChars_normalizeChars]

/-! ### Splitting undoes joining -/

theorem isDigit_colon : isDigit ':' = false := rfl

theorem takeWhile_digits_append {d r : List Char} (hd : ∀ c ∈ d, isDigit c = true) :
    (d ++ ':' :: r).takeWhile isDigit = d ∧ (d ++ ':' :: r).dropWhile isDigit = ':' :: r := by
  induction d with
  | nil => simp [isDigit_colon]
  | cons c d ih =>
    obtain ⟨ht, hr⟩ := ih fun x hx => hd x (List.mem_cons_of_mem _ hx)
    simp [hd c List.mem_cons_self, ht, hr]

theorem splitRevisionChars_eq_some_iff {cs b r : List Char} :
    splitRevisionChars cs = some (b, r) ↔
      cs = b ++ ':' :: r ∧ b ≠ [] ∧ r ≠ [] ∧ ∀ c ∈ r, isDigit c = true := by
  constructor
  · intro h
    simp only [splitRevisionChars] at h
    split at h
    · next base hb =>
      split at h
      · cases h
      · next hne =>
        simp only [Option.some.injEq, Prod.mk.injEq] at h
        obtain ⟨rfl, rfl⟩ := h
        have hsplit := List.takeWhile_append_dropWhile (p := isDigit) (l := cs.reverse)
        rw [hb] at hsplit
        refine ⟨?_, ?_, ?_, ?_⟩
        · simpa using (congrArg List.reverse hsplit).symm
        · simpa using fun hn => hne (.inr hn)
        · simpa using fun hn => hne (.inl hn)
        · intro c hc
          exact (List.all_eq_true.mp (List.all_takeWhile (p := isDigit))) c (List.mem_reverse.mp hc)
    · cases h
  · rintro ⟨rfl, hb, hr, hd⟩
    have hrev : (b ++ ':' :: r).reverse = r.reverse ++ ':' :: b.reverse := by simp
    obtain ⟨ht, hdrop⟩ := takeWhile_digits_append (r := b.reverse) (d := r.reverse)
      fun c hc => hd c (List.mem_reverse.mp hc)
    simp [splitRevisionChars, hrev, ht, hdrop, hb, hr]

/-- A key splits exactly when it is a non-empty base, a colon and one or more
digits; the parts are these. -/
theorem splitRevision_eq_some_iff {key base revision : String} :
    splitRevision key = some (base, revision) ↔
      key = base ++ ":" ++ revision ∧ base ≠ "" ∧ revision ≠ "" ∧
        ∀ c ∈ revision.toList, isDigit c = true := by
  have hcolon : (":" : String).toList = [':'] := rfl
  have hempty : ("" : String).toList = [] := rfl
  constructor
  · intro h
    obtain ⟨p, hp, heq⟩ := Option.map_eq_some_iff.mp h
    simp only [Prod.mk.injEq] at heq
    obtain ⟨rfl, rfl⟩ := heq
    obtain ⟨hk, hb, hr, hd⟩ := splitRevisionChars_eq_some_iff.mp hp
    refine ⟨?_, ?_, ?_, ?_⟩
    · rw [← String.toList_inj]; simp [hk, hcolon]
    · rw [ne_eq, ← String.toList_inj]; simpa [hempty] using hb
    · rw [ne_eq, ← String.toList_inj]; simpa [hempty] using hr
    · simpa using hd
  · rintro ⟨rfl, hb, hr, hd⟩
    rw [ne_eq, ← String.toList_inj, hempty] at hb hr
    have : splitRevisionChars (base ++ ":" ++ revision).toList =
        some (base.toList, revision.toList) :=
      splitRevisionChars_eq_some_iff.mpr ⟨by simp [hcolon], hb, hr, hd⟩
    rw [splitRevision, this]
    simp

end LocalizationMemory.Key
