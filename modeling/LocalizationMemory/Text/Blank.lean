/-!
# Blank characters and trimming

A character is *blank* when it has the White_Space property of the Unicode
standard: twenty-five characters, among them the line and paragraph separators
and the ideographic space, but not the zero width space. Keys, names and
settings are trimmed of exactly these.

## Main definitions

* `isBlank` — the White_Space property
* `trim` — a text without its leading and trailing blanks
* `allBlank` — the text holds nothing but blanks

## Main results

* `trimChars_trimChars` — trimming twice is trimming once
* `allBlank_iff_trim_eq_empty` — a text is all blank exactly when trimming
  leaves nothing
-/

namespace LocalizationMemory.Text

/-- A character with the White_Space property. -/
def isBlank (c : Char) : Bool :=
  let n := c.toNat
  (9 ≤ n && n ≤ 13) || n == 0x20 || n == 0x85 || n == 0xA0 || n == 0x1680 ||
    (0x2000 ≤ n && n ≤ 0x200A) || n == 0x2028 || n == 0x2029 || n == 0x202F ||
    n == 0x205F || n == 0x3000

/-- The characters left after the leading blanks. -/
def trimStartChars (cs : List Char) : List Char := cs.dropWhile isBlank

/-- The characters left before the trailing blanks. -/
def trimEndChars (cs : List Char) : List Char := (cs.reverse.dropWhile isBlank).reverse

/-- The characters between the leading and the trailing blanks. -/
def trimChars (cs : List Char) : List Char := trimEndChars (trimStartChars cs)

/-- A text without its leading and trailing blanks. -/
def trim (s : String) : String := String.ofList (trimChars s.toList)

/-- A text of blanks only, the empty text included. -/
def allBlank (s : String) : Bool := s.toList.all isBlank

/-! ### Where trimming stops -/

theorem head_dropWhile_not {p : Char → Bool} :
    ∀ {cs : List Char} {c r}, cs.dropWhile p = c :: r → p c = false
  | [], _, _, h => by simp at h
  | a :: as, c, r, h => by
    rw [List.dropWhile_cons] at h
    split at h
    · exact head_dropWhile_not h
    · next ha => cases h; simpa using ha

theorem dropWhile_eq_self {p : Char → Bool} {cs : List Char}
    (h : ∀ c r, cs = c :: r → p c = false) : cs.dropWhile p = cs := by
  cases cs with
  | nil => rfl
  | cons c r => rw [List.dropWhile_cons]; simp [h c r rfl]

theorem dropWhile_dropWhile {p : Char → Bool} (cs : List Char) :
    (cs.dropWhile p).dropWhile p = cs.dropWhile p :=
  dropWhile_eq_self fun _ _ => head_dropWhile_not

theorem trimEndChars_trimEndChars (cs : List Char) :
    trimEndChars (trimEndChars cs) = trimEndChars cs := by
  simp [trimEndChars, dropWhile_dropWhile]

/-- Dropping trailing blanks keeps the first character, unless nothing is left. -/
theorem trimEndChars_cons_of_not {c : Char} (h : isBlank c = false) (r : List Char) :
    ∃ r', trimEndChars (c :: r) = c :: r' := by
  have hsplit : ∀ l : List Char, ∃ l', (l ++ [c]).dropWhile isBlank = l' ++ [c] := by
    intro l
    induction l with
    | nil => exact ⟨[], by simp [h]⟩
    | cons a l ih =>
      rw [List.cons_append, List.dropWhile_cons]
      split
      · exact ih
      · exact ⟨a :: l, rfl⟩
  obtain ⟨l', hl'⟩ := hsplit r.reverse
  exact ⟨l'.reverse, by simp [trimEndChars, hl']⟩

theorem trimStartChars_trimChars (cs : List Char) :
    trimStartChars (trimChars cs) = trimChars cs := by
  unfold trimChars
  cases hs : trimStartChars cs with
  | nil => rfl
  | cons c r =>
    have hc : isBlank c = false := head_dropWhile_not hs
    obtain ⟨r', hr'⟩ := trimEndChars_cons_of_not hc r
    rw [hr']
    exact dropWhile_eq_self fun _ _ he => by cases he; exact hc

theorem trimChars_trimChars (cs : List Char) : trimChars (trimChars cs) = trimChars cs := by
  rw [trimChars, trimStartChars_trimChars, trimChars, trimEndChars_trimEndChars]

@[simp] theorem toList_trim (s : String) : (trim s).toList = trimChars s.toList := by
  simp [trim]

theorem dropWhile_eq_nil_iff_all {p : Char → Bool} {cs : List Char} :
    cs.dropWhile p = [] ↔ ∀ c ∈ cs, p c = true := by
  induction cs with
  | nil => simp
  | cons c r ih =>
    rw [List.dropWhile_cons]
    split
    · next hc => simp [ih, hc]
    · next hc => simp [hc]

theorem trimChars_eq_nil_iff {cs : List Char} : trimChars cs = [] ↔ ∀ c ∈ cs, isBlank c = true := by
  constructor
  · intro h
    unfold trimChars at h
    cases hs : trimStartChars cs with
    | nil => exact dropWhile_eq_nil_iff_all.mp hs
    | cons c r =>
      obtain ⟨r', hr'⟩ := trimEndChars_cons_of_not (head_dropWhile_not hs) r
      rw [hs, hr'] at h
      cases h
  · intro h
    have hs : trimStartChars cs = [] := dropWhile_eq_nil_iff_all.mpr h
    rw [trimChars, hs]
    rfl

theorem allBlank_iff_trim_eq_empty {s : String} : allBlank s = true ↔ trim s = "" := by
  rw [allBlank, List.all_eq_true, ← trimChars_eq_nil_iff, ← toList_trim, ← String.toList_inj]
  rfl

end LocalizationMemory.Text
