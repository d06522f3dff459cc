import LocalizationMemory.Json.Fault

/-!
# Reading from the left

A reader takes something off the start of a text and leaves a rest that is shorter,
or finds a fault. Every reader makes progress, so reading one thing after another
comes to an end, and the first fault from the left is the one reported.

## Main definitions

* `Json.Rest` — what is left of a text after reading
* `Json.Reader` — takes a value off the start of a text
* `Json.Reader.andThen` — one reader after another
* `Json.skipBlank` — a text without the blanks at its start

## Main results

* `Json.length_skipBlank_le` — skipping blanks never makes a text longer
-/

namespace LocalizationMemory.Json

/-- What is left of a text after something was read. -/
abbrev Rest (cs : List Char) := { r : List Char // r.length < cs.length }

/-- What is left of a text after part of it was read, or all of the text. -/
abbrev RestOrAll (cs : List Char) := { r : List Char // r.length ≤ cs.length }

/-- Takes a value off the start of a text. -/
def Reader (α : Type) := (cs : List Char) → Except Fault (α × Rest cs)

/-- The rest after the first character. -/
def Rest.tail (c : Char) (r : List Char) : Rest (c :: r) := ⟨r, Nat.lt_succ_self _⟩

/-- All of a text. -/
def RestOrAll.all (cs : List Char) : RestOrAll cs := ⟨cs, Nat.le_refl _⟩

/-- What is left of a text is left of it after one more character in front. -/
def RestOrAll.after (c : Char) {r : List Char} (rest : RestOrAll r) : RestOrAll (c :: r) :=
  ⟨rest.1, Nat.le_succ_of_le rest.2⟩

/-- With one more character in front of a text, something was read of it. -/
def RestOrAll.below (c : Char) {r : List Char} (rest : RestOrAll r) : Rest (c :: r) :=
  ⟨rest.1, Nat.lt_succ_of_le rest.2⟩

/-- What is left of a rest of a text is left of the text. -/
def Rest.trans {cs : List Char} (rest : Rest cs) (after : RestOrAll rest.1) : RestOrAll cs :=
  ⟨after.1, Nat.le_trans after.2 (Nat.le_of_lt rest.2)⟩

/-- A rest of a text that is no longer than another is a rest of the other. -/
def Rest.widen {cs ds : List Char} (r : Rest cs) (h : cs.length ≤ ds.length) : Rest ds :=
  ⟨r.1, Nat.lt_of_lt_of_le r.2 h⟩

/-- What was read of a text was read of one that is no shorter. -/
def widen {α : Type} {cs ds : List Char} (h : cs.length ≤ ds.length) :
    Except Fault (α × Rest cs) → Except Fault (α × Rest ds)
  | .ok (x, r) => .ok (x, r.widen h)
  | .error fault => .error fault

/-- What was read after a character was read of the text with it. -/
def widenAfter {α : Type} (c : Char) {r : List Char} :
    Except Fault (α × Rest r) → Except Fault (α × Rest (c :: r)) :=
  widen (Nat.le_succ _)

/-- What was read of a rest of a text was read of the text. -/
def widenRest {α : Type} {cs : List Char} (rest : Rest cs) :
    Except Fault (α × Rest rest.1) → Except Fault (α × Rest cs) :=
  widen (Nat.le_of_lt rest.2)

namespace Reader

variable {α β : Type}

/-- One reader after another. -/
def andThen (first : Reader α) (second : α → Reader β) : Reader β := fun cs =>
  match first cs with
  | .ok (x, r) => widenRest r (second x r.1)
  | .error fault => .error fault

/-- Judge the value that was read. -/
def judge (first : Reader α) (verdict : α → Except Fault β) : Reader β := fun cs =>
  match first cs with
  | .ok (x, r) =>
    match verdict x with
    | .ok y => .ok (y, r)
    | .error fault => .error fault
  | .error fault => .error fault

/-- Change the value that was read. -/
def map (f : α → β) (first : Reader α) : Reader β := first.judge fun x => .ok (f x)

end Reader

/-! ### Blanks and digits -/

/-- The characters that may stand between the parts of a text. -/
def isBlank (c : Char) : Bool := c == ' ' || c == '\n' || c == '\t' || c == '\r'

/-- A text without the blanks at its start. -/
def skipBlank (cs : List Char) : List Char := cs.dropWhile isBlank

theorem length_dropWhile_le {α : Type} (p : α → Bool) (l : List α) :
    (l.dropWhile p).length ≤ l.length := (List.dropWhile_suffix p).length_le

/-- Skipping blanks never makes a text longer. -/
theorem length_skipBlank_le (cs : List Char) : (skipBlank cs).length ≤ cs.length :=
  length_dropWhile_le _ _

theorem length_le_of_skipBlank {cs r : List Char} {c : Char} (h : skipBlank cs = c :: r) :
    (c :: r).length ≤ cs.length := by
  rw [← h]
  exact length_skipBlank_le cs

/-- What follows the first character that is no blank is shorter than the text. -/
theorem length_lt_of_skipBlank {cs r : List Char} {c : Char} (h : skipBlank cs = c :: r) :
    r.length < cs.length := length_le_of_skipBlank h

/-- A decimal digit. -/
def isDigit (c : Char) : Bool := '0' ≤ c && c ≤ '9'

/-- The value of a decimal digit. -/
def digitValue (c : Char) : Nat := c.toNat - '0'.toNat

/-- Read after the blanks at the start of a text. -/
def Reader.afterBlank {α : Type} (reader : Reader α) : Reader α := fun cs =>
  widen (length_skipBlank_le cs) (reader (skipBlank cs))

/-! ### Words -/

/-- The rest of a word whose first letter was recognized. -/
def readWord (word : List Char) (cs : List Char) : Except Fault (RestOrAll cs) :=
  match word, cs with
  | [], cs => .ok (.all cs)
  | _ :: _, [] => .error .endInValue
  | w :: word, c :: cs =>
    if w = c then
      match readWord word cs with
      | .ok r => .ok (r.after c)
      | .error fault => .error fault
    else .error .expectedIdent

end LocalizationMemory.Json
