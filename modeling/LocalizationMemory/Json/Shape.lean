import LocalizationMemory.Json.Skip

/-!
# Values of a wanted shape

A JSON text is read with a shape in mind: a string, an integer of some width, a list,
a pair, or a record of named fields. A record is written as an object, whose names may
come in any order, or as a list of its fields in their order. Names that the record does not
have are skipped. A field that is left out has a default, or is missing.

## Main definitions

* `Json.text`, `Json.integer`, `Json.optional`, `Json.list`, `Json.pair` — readers of shapes
* `Json.Absence` — what a field that is left out stands for
* `Json.Fields` — the fields of a record, in order
* `Json.record` — the reader of a record
* `Json.read` — a text that is one value and no more
-/

namespace LocalizationMemory.Json

/-! ### What stands in the place of a shape -/

/-- The fault of a value that is not of the expected shape; a value that is not even
well formed has its own. -/
def mismatch (expected : String) (cs : List Char) : Fault :=
  let typed {α : Type} (found : α → Found) : Except Fault α → Fault
    | .ok x => .invalidType (found x) expected
    | .error fault => fault
  match cs with
  | [] => .endInValue
  | c :: r =>
    if c = 'n' then typed (fun _ => .null) (readWord ['u', 'l', 'l'] r)
    else if c = 't' then typed (fun _ => .boolean true) (readWord ['r', 'u', 'e'] r)
    else if c = 'f' then typed (fun _ => .boolean false) (readWord ['a', 'l', 's', 'e'] r)
    else if c = '"' then typed (fun p => .text p.1) (readText r)
    else if c = '-' then typed (fun p => p.1.found) (readNumber false r)
    else if isDigit c then typed (fun p => p.1.found) (readNumber true (c :: r))
    else if c = '[' then .invalidType .sequence expected
    else if c = '{' then .invalidType .map expected
    else .expectedValue

/-! ### Strings and integers -/

/-- A string. -/
def text (expected : String) : Reader String := Reader.afterBlank fun cs =>
  match cs with
  | '"' :: r => widenAfter '"' (readText r)
  | cs => .error (mismatch expected cs)

/-- The integer that a number is, if it is one that is accepted. -/
def acceptInteger {α : Type} (expected : String) (accept : Int → Option α) :
    Number → Except Fault α
  | .integer value =>
    match accept value with
    | some x => .ok x
    | none => .error (.invalidValue (.integer value) expected)
  | number => .error (.invalidType number.found expected)

/-- An integer that is accepted. -/
def integer {α : Type} (expected : String) (accept : Int → Option α) : Reader α :=
  Reader.afterBlank fun cs =>
    match cs with
    | [] => .error .endInValue
    | c :: r =>
      if c = '-' then
        widenAfter c ((readNumber false).judge (acceptInteger expected accept) r)
      else if isDigit c then (readNumber true).judge (acceptInteger expected accept) (c :: r)
      else .error (mismatch expected (c :: r))

/-- An integer of thirty-two bits without a sign. -/
def word32 : Reader UInt32 :=
  integer "u32" fun n => if 0 ≤ n ∧ n < UInt32.size then some (UInt32.ofNat n.toNat) else none

/-- An integer of sixty-four bits without a sign. -/
def word64 : Reader UInt64 :=
  integer "u64" fun n => if 0 ≤ n ∧ n < UInt64.size then some (UInt64.ofNat n.toNat) else none

/-- An integer of sixty-four bits with a sign. -/
def signed64 : Reader Int :=
  integer "i64" fun n => if -Int.pow 2 63 ≤ n ∧ n < Int.pow 2 63 then some n else none

/-- A value, or null for none. -/
def optional {α : Type} (reader : Reader α) : Reader (Option α) := Reader.afterBlank fun cs =>
  match cs with
  | 'n' :: r =>
    match wordAfter ['u', 'l', 'l'] 'n' r with
    | .ok (_, rest) => .ok (none, rest)
    | .error fault => .error fault
  | cs => reader.map some cs

/-! ### Lists -/

/-- Where the next item of a list starts, if there is one before the closing bracket. -/
def nextItem (first : Bool) (cs : List Char) : Except Fault (Option (RestOrAll cs)) :=
  match h : skipBlank cs with
  | [] => .error .endInList
  | c :: r =>
    if c = ']' then .ok none
    else if first then .ok (some ⟨c :: r, length_le_of_skipBlank h⟩)
    else if c = ',' then
      let after : Rest cs := ⟨r, length_lt_of_skipBlank h⟩
      match h : skipBlank r with
      | [] => .error .endInValue
      | d :: s =>
        if d = ']' then .error .trailingComma
        else .ok (some (after.trans ⟨d :: s, length_le_of_skipBlank h⟩))
    else .error .expectedCommaOrBracket

/-- The bracket that closes a list. -/
def closeList : Reader Unit := Reader.afterBlank fun cs =>
  match cs with
  | ']' :: r => .ok ((), .tail ']' r)
  | [] => .error .endInList
  | ',' :: r =>
    .error (if (skipBlank r).head? = some ']' then .trailingComma else .trailingCharacters)
  | _ => .error .trailingCharacters

/-- The items of a list up to its closing bracket. -/
def items {α : Type} (item : Reader α) (first : Bool) (cs : List Char) :
    Except Fault (List α × RestOrAll cs) :=
  match nextItem first cs with
  | .error fault => .error fault
  | .ok none => .ok ([], ⟨cs, Nat.le_refl _⟩)
  | .ok (some start) =>
    match item start.1 with
    | .error fault => .error fault
    | .ok (x, rest) =>
      have hr : rest.1.length < cs.length := Nat.lt_of_lt_of_le rest.2 start.2
      match items item false rest.1 with
      | .error fault => .error fault
      | .ok (xs, after) => .ok (x :: xs, ⟨after.1, Nat.le_trans after.2 (Nat.le_of_lt hr)⟩)
termination_by cs.length

/-- What stands between brackets, with the closing bracket. -/
def bracketed {α : Type} (content : (cs : List Char) → Except Fault (α × RestOrAll cs)) :
    Reader α := fun cs =>
  match content cs with
  | .error fault => .error fault
  | .ok (x, rest) =>
    match closeList rest.1 with
    | .error fault => .error fault
    | .ok (_, after) => .ok (x, ⟨after.1, Nat.lt_of_lt_of_le after.2 rest.2⟩)

/-- What stands in brackets. -/
def inBrackets {α : Type} (expected : String)
    (content : (cs : List Char) → Except Fault (α × RestOrAll cs)) : Reader α :=
  Reader.afterBlank fun cs =>
    match cs with
    | '[' :: r => widenAfter '[' (bracketed content r)
    | cs => .error (mismatch expected cs)

/-- A list of values. -/
def list {α : Type} (item : Reader α) : Reader (List α) := inBrackets "a sequence" (items item true)

/-- The item with an index, if the list has one more. -/
def itemAt? {α : Type} (index : Nat) (item : Reader α) (cs : List Char) :
    Except Fault (Option (α × RestOrAll cs)) :=
  match nextItem (index == 0) cs with
  | .error fault => .error fault
  | .ok none => .ok none
  | .ok (some start) =>
    match item start.1 with
    | .error fault => .error fault
    | .ok (x, rest) => .ok (some (x, ⟨rest.1, Nat.le_of_lt (Nat.lt_of_lt_of_le rest.2 start.2)⟩))

/-- The item with an index, which the list has to have. -/
def itemAt {α : Type} (expected : String) (index : Nat) (item : Reader α) (cs : List Char) :
    Except Fault (α × RestOrAll cs) :=
  match itemAt? index item cs with
  | .error fault => .error fault
  | .ok none => .error (.invalidLength index expected)
  | .ok (some found) => .ok found

/-- A list of exactly two values. -/
def pair {α β : Type} (first : Reader α) (second : Reader β) : Reader (α × β) :=
  let expected := "a tuple of size 2"
  inBrackets expected fun cs =>
    match itemAt expected 0 first cs with
    | .error fault => .error fault
    | .ok (x, rest) =>
      match itemAt expected 1 second rest.1 with
      | .error fault => .error fault
      | .ok (y, after) => .ok ((x, y), ⟨after.1, Nat.le_trans after.2 rest.2⟩)

/-! ### Records -/

/-- What a field that is left out stands for. -/
inductive Absence (β : Type) where
  /-- The field has to be there. -/
  | refused
  /-- It stands for a value. -/
  | allowed (value : β)
  /-- It stands for a value in an object; a list has to have it. -/
  | allowedByName (value : β)

/-- The value of a field that an object leaves out. -/
def Absence.byName? {β : Type} : Absence β → Option β
  | refused => none
  | allowed value => some value
  | allowedByName value => some value

/-- The value of a field that a list leaves out. -/
def Absence.byPlace? {β : Type} : Absence β → Option β
  | allowed value => some value
  | _ => none

/-- A field of a record. -/
structure Field (β : Type) where
  name : String
  reader : Reader β
  absence : Absence β := .refused

/-- The fields of a record, in order. While the record is read, `σ` holds the values
that are known; in the end `γ` holds them all. -/
inductive Fields : Type → Type → Type 1 where
  | nil : Fields Unit Unit
  | cons {β σ γ : Type} (field : Field β) (rest : Fields σ γ) : Fields (Option β × σ) (β × γ)

/-- What a name means to a record. -/
inductive Member (σ : Type) where
  | unknown
  /-- The value of the name is known already. -/
  | repeated
  /-- The value of the name is read next. -/
  | wanted (reader : Reader σ)

namespace Fields

variable {σ γ : Type}

/-- The number of fields. -/
def size : {σ γ : Type} → Fields σ γ → Nat
  | _, _, nil => 0
  | _, _, cons _ rest => rest.size + 1

/-- No value is known. -/
def start : {σ γ : Type} → Fields σ γ → σ
  | _, _, nil => ()
  | _, _, cons _ rest => (none, rest.start)

/-- What a name means after some values are known. -/
def member (name : String) : {σ γ : Type} → Fields σ γ → σ → Member σ
  | _, _, nil, _ => .unknown
  | _, _, cons field rest, (value, known) =>
    if field.name = name then
      -- A field may be given once, even if it was given as null.
      if value.isSome then .repeated
      else .wanted (field.reader.map fun x => (some x, known))
    else
      match rest.member name known with
      | .unknown => .unknown
      | .repeated => .repeated
      | .wanted reader => .wanted (reader.map fun known => (value, known))

/-- All values, once the object has ended. -/
def complete : {σ γ : Type} → Fields σ γ → σ → Except Fault γ
  | _, _, nil, _ => .ok ()
  | _, _, cons field rest, (value, known) =>
    match value.or field.absence.byName? with
    | none => .error (.missingField field.name)
    | some x => (rest.complete known).map fun y => (x, y)

/-- The values of the fields from an index on, as items of a list. -/
def fromItems (expected : String) :
    {σ γ : Type} → Fields σ γ → (index : Nat) → (cs : List Char) → Except Fault (γ × RestOrAll cs)
  | _, _, nil, _, cs => .ok ((), ⟨cs, Nat.le_refl _⟩)
  | _, _, cons field rest, index, cs =>
    match itemAt? index field.reader cs with
    | .error fault => .error fault
    | .ok (some (x, after)) =>
      match rest.fromItems expected (index + 1) after.1 with
      | .error fault => .error fault
      | .ok (y, last) => .ok ((x, y), ⟨last.1, Nat.le_trans last.2 after.2⟩)
    | .ok none =>
      match field.absence.byPlace? with
      | none => .error (.invalidLength index expected)
      | some x =>
        match rest.fromItems expected (index + 1) cs with
        | .error fault => .error fault
        | .ok (y, last) => .ok ((x, y), last)

end Fields

/-- A name after its opening quote. -/
def nameAfterQuote (r : List Char) : Except Fault (Option String × Rest ('"' :: r)) :=
  widenAfter '"' (readText.map some r)

/-- The next name of an object, or none with the closing brace. -/
def nextName (first : Bool) : Reader (Option String) := Reader.afterBlank fun cs =>
  match cs with
  | [] => .error .endInObject
  | '}' :: r => .ok (none, .tail '}' r)
  | '"' :: r => if first then nameAfterQuote r else .error .expectedCommaOrBrace
  | ',' :: r =>
    if first then .error .keyMustBeString
    else
      widenAfter ',' <| Reader.afterBlank (fun cs =>
        match cs with
        | [] => .error .endInValue
        | '"' :: r => nameAfterQuote r
        | '}' :: _ => .error .trailingComma
        | _ => .error .keyMustBeString) r
  | _ => .error (if first then .keyMustBeString else .expectedCommaOrBrace)

/-- The values of a record from an object, up to the closing brace. -/
def members {σ γ : Type} (fields : Fields σ γ) (known : σ) (first : Bool) (cs : List Char) :
    Except Fault (γ × Rest cs) :=
  match nextName first cs with
  | .error fault => .error fault
  | .ok (none, rest) => (fields.complete known).map fun x => (x, rest)
  | .ok (some name, rest) =>
    -- A repeated name is refused before its value is looked at.
    let value : Except Fault (σ × Rest rest.1) :=
      match fields.member name known with
      | .repeated => .error (.duplicateField name)
      | .unknown => (skipColon.andThen fun _ => skipValue.map fun _ => known) rest.1
      | .wanted reader => (skipColon.andThen fun _ => reader) rest.1
    match value with
    | .error fault => .error fault
    | .ok (known, after) =>
      have ha : after.1.length < cs.length := Nat.lt_trans after.2 rest.2
      match members fields known false after.1 with
      | .error fault => .error fault
      | .ok (x, last) => .ok (x, ⟨last.1, Nat.lt_trans last.2 ha⟩)
termination_by cs.length

/-- A record, written as an object or as a list of its fields. -/
def record {σ γ : Type} (name : String) (fields : Fields σ γ) : Reader γ :=
  Reader.afterBlank fun cs =>
    match cs with
    | '{' :: r => widenAfter '{' (members fields fields.start true r)
    | '[' :: r =>
      widenAfter '[' <|
        bracketed (fields.fromItems s!"struct {name} with {fields.size} elements" 0) r
    | cs => .error (mismatch s!"struct {name}" cs)

/-! ### Whole texts -/

/-- The value that a text is, with nothing after it but blanks. -/
def read {α : Type} (reader : Reader α) (text : String) : Except Fault α :=
  match reader text.toList with
  | .error fault => .error fault
  | .ok (x, rest) => if (skipBlank rest.1).isEmpty then .ok x else .error .trailingCharacters

end LocalizationMemory.Json
