import LocalizationMemory.Json.Number
import LocalizationMemory.Json.Text

/-!
# Skipping values in JSON

A value under a name that nobody asks for is skipped, however deep its lists and
objects are nested. It has to be well formed all the same, but a value that could
not be read for its size or its meaning can be skipped.

## Main definitions

* `Json.skipColon` — the colon between a name and its value
* `Json.skipValue` — skip a value
-/

namespace LocalizationMemory.Json

/-- The brackets of a list and of an object. -/
inductive Bracket where
  | square
  | brace
  deriving DecidableEq, Repr

namespace Bracket

/-- The character that closes what a bracket opened. -/
def closing : Bracket → Char
  | square => ']'
  | brace => '}'

/-- The text ends before the bracket is closed. -/
def endFault : Bracket → Fault
  | square => .endInList
  | brace => .endInObject

/-- Something else stands where another item or the closing bracket should. -/
def itemFault : Bracket → Fault
  | square => .expectedCommaOrBracket
  | brace => .expectedCommaOrBrace

end Bracket

/-- The colon between a name and its value. -/
def skipColon : Reader Unit := Reader.afterBlank fun cs =>
  match cs with
  | ':' :: r => .ok ((), .tail ':' r)
  | [] => .error .endInObject
  | _ => .error .expectedColon

/-- Skip a name with its colon. -/
def skipName : Reader Unit :=
  (Reader.afterBlank fun cs =>
    match cs with
    | '"' :: r => widenAfter '"' (skipText r)
    | [] => .error .endInObject
    | _ => .error .keyMustBeString).andThen fun _ => skipColon

/-- A word after its first letter. -/
def wordAfter (word : List Char) (c : Char) (r : List Char) :
    Except Fault (Unit × Rest (c :: r)) :=
  match readWord word r with
  | .ok rest => .ok ((), rest.below c)
  | .error fault => .error fault

/-- Skip a value without parts. -/
def skipScalar : Reader Unit := fun cs =>
  match cs with
  | [] => .error .endInValue
  | c :: r =>
    if c = 'n' then wordAfter ['u', 'l', 'l'] c r
    else if c = 't' then wordAfter ['r', 'u', 'e'] c r
    else if c = 'f' then wordAfter ['a', 'l', 's', 'e'] c r
    else if c = '"' then widenAfter c (skipText r)
    else if c = '-' then widenAfter c (skipNumber r)
    else if isDigit c then skipNumber (c :: r)
    else .error .expectedValue

/-- Where an item starts: after the comma that follows another item, or right here. -/
def itemStart (afterItem : Bool) (c : Char) (r : List Char) : RestOrAll (c :: r) :=
  if afterItem then .after c (.all r) else .all (c :: r)

mutual

/-- Skip a value and what follows it in the brackets that are open. -/
def skipWithin (opened : List Bracket) (cs : List Char) : Except Fault (Unit × Rest cs) :=
  match h : skipBlank cs with
  | [] => .error .endInValue
  | c :: r =>
    have hr : r.length < cs.length := length_lt_of_skipBlank h
    if c = '[' then
      match skipOn (.square :: opened) false r with
      | .ok rest => .ok ((), ⟨rest.1, Nat.lt_of_le_of_lt rest.2 hr⟩)
      | .error fault => .error fault
    else if c = '{' then
      match skipOn (.brace :: opened) false r with
      | .ok rest => .ok ((), ⟨rest.1, Nat.lt_of_le_of_lt rest.2 hr⟩)
      | .error fault => .error fault
    else
      match skipScalar (c :: r) with
      | .error fault => .error fault
      | .ok (_, after) =>
        have ha : after.1.length < cs.length := Nat.lt_of_lt_of_le after.2 (length_le_of_skipBlank h)
        match skipOn opened true after.1 with
        | .ok rest => .ok ((), ⟨rest.1, Nat.lt_of_le_of_lt rest.2 ha⟩)
        | .error fault => .error fault
termination_by 2 * cs.length
decreasing_by all_goals omega

/-- Skip what follows in the brackets that are open: after an item, a comma and
another item, or the closing bracket; right after the bracket, an item too. -/
def skipOn (opened : List Bracket) (afterItem : Bool) (cs : List Char) :
    Except Fault (RestOrAll cs) :=
  match opened with
  | [] => .ok ⟨cs, Nat.le_refl _⟩
  | b :: outer =>
    match h : skipBlank cs with
    | [] => .error b.endFault
    | c :: r =>
      have hr : r.length < cs.length := length_lt_of_skipBlank h
      -- The closed bracket ends an item of the one around it.
      if c = b.closing then
        match skipOn outer true r with
        | .ok rest => .ok ⟨rest.1, Nat.le_of_lt (Nat.lt_of_le_of_lt rest.2 hr)⟩
        | .error fault => .error fault
      else if afterItem && c != ',' then .error b.itemFault
      else
        have hi : (itemStart afterItem c r).1.length ≤ cs.length :=
          Nat.le_trans (itemStart afterItem c r).2 (length_le_of_skipBlank h)
        if b = .brace then
          match skipName (itemStart afterItem c r).1 with
          | .error fault => .error fault
          | .ok (_, value) =>
            have hv : value.1.length < cs.length := Nat.lt_of_lt_of_le value.2 hi
            match skipWithin opened value.1 with
            | .ok (_, rest) => .ok ⟨rest.1, Nat.le_of_lt (Nat.lt_trans rest.2 hv)⟩
            | .error fault => .error fault
        else
          match skipWithin opened (itemStart afterItem c r).1 with
          | .ok (_, rest) => .ok ⟨rest.1, Nat.le_of_lt (Nat.lt_of_lt_of_le rest.2 hi)⟩
          | .error fault => .error fault
termination_by 2 * cs.length + 1
decreasing_by all_goals omega

end

/-- Skip a value. -/
def skipValue : Reader Unit := skipWithin []

end LocalizationMemory.Json
