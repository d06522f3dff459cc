import LocalizationMemory.Fault
import LocalizationMemory.Text.Alphanumeric
import LocalizationMemory.Text.Blank
import LocalizationMemory.Text.Dict

/-!
# Environment files

An environment file gives values to variables, a statement for each. A statement is
a line, or several if quotes or an escape reach over the end of a line. It names a
variable and a value, which may be quoted, escaped and followed by a comment, and
which may ask for the value of another variable after a dollar sign. A variable that is
set keeps its value. A statement that cannot be read ends the file; what was set
before it stays.

## Main definitions

* `EnvFile.Scan` — where quotes and escapes stand while a statement is gathered
* `EnvFile.statements` — the statements of a file
* `EnvFile.readValue` — the value that is written in a statement
* `EnvFile.meaning` — what a statement comes to: an assignment, nothing, or a failure
* `EnvFile.load` — the variables after a file
-/

namespace LocalizationMemory

/-- The values of the variables that are set. -/
abbrev Variables := Dict String

namespace EnvFile

/-! ### Statements -/

/-- Where quotes and escapes stand while a statement is gathered. -/
inductive Scan where
  | plain
  /-- After one blank, where a comment may start. -/
  | blank
  | escape
  | single
  | singleEscape
  | double
  | doubleEscape
  deriving DecidableEq, Repr

namespace Scan

/-- Outside quotes, after a character that is no blank. -/
def afterPlain (c : Char) : Scan :=
  if c = '\\' then escape
  else if c = '"' then double
  else if c = '\'' then single
  else plain

/-- The place after a character; there is none where a comment starts. -/
def next? : Scan → Char → Option Scan
  | plain, c => some (if Text.isBlank c && c != '\n' && c != '\r' then blank else afterPlain c)
  | blank, c => if c = '#' then none else some (afterPlain c)
  | escape, _ => some plain
  | single, c => some (if c = '\\' then singleEscape else if c = '\'' then plain else single)
  | singleEscape, _ => some single
  | double, c => some (if c = '\\' then doubleEscape else if c = '"' then plain else double)
  | doubleEscape, _ => some double

end Scan

/-- Where a line leads: to a comment, with what stands before it, or to a place. -/
inductive LineEnd where
  | comment (before : List Char)
  | place (scan : Scan)
  deriving DecidableEq, Repr

/-- Where a line leads from a place. -/
def scanLine : Scan → List Char → LineEnd
  | scan, [] => .place scan
  | scan, c :: r =>
    match scan.next? c with
    | none => .comment []
    | some scan =>
      match scanLine scan r with
      | .comment before => .comment (c :: before)
      | .place scan => .place scan

/-- A statement, or the end of reading. -/
inductive Statement where
  | text (cs : List Char)
  /-- The statement cannot be read. -/
  | broken
  deriving DecidableEq, Repr

/-- A list of characters without the line feed at its end and the carriage return before it. -/
def withoutLineEnd (cs : List Char) : List Char :=
  match cs.reverse with
  | '\n' :: '\r' :: r => r.reverse
  | '\n' :: r => r.reverse
  | _ => cs

/-- Gather the statements of lines, after what is gathered of the first one. A line
that is no text ends reading, and so does the end of the file inside quotes, after an
escape or after a blank. A statement ends before a comment. -/
def gather (gathered : List Char) (scan : Scan) : List (Option (List Char)) → List Statement
  | [] => if scan = .plain then [] else [.broken]
  | none :: _ => [.broken]
  | some line :: r =>
    let all := gathered ++ line
    -- A comment of its own is left out, with what was gathered before it.
    if (Text.trimStartChars all).head? = some '#' then gather [] .plain r
    else
      match scanLine scan line with
      | .comment before => .text (gathered ++ before) :: gather [] .plain r
      | .place .plain => .text (withoutLineEnd all) :: gather [] .plain r
      | .place scan => gather all scan r

/-- The lines of a list of bytes, each with its line feed. -/
def byteLines : List UInt8 → List (List UInt8)
  | [] => []
  | b :: r =>
    if b = 10 then [b] :: byteLines r
    else
      match byteLines r with
      | [] => [[b]]
      | line :: lines => (b :: line) :: lines

/-- The mark that may stand at the start of a file. -/
def byteOrderMark : List UInt8 := [0xEF, 0xBB, 0xBF]

/-- A list of bytes without a byte order mark at its start. -/
def withoutMark (bytes : List UInt8) : List UInt8 :=
  if byteOrderMark.isPrefixOf bytes then bytes.drop 3 else bytes

/-- The statements of a file. -/
def statements (bytes : List UInt8) : List Statement :=
  gather [] .plain <| (byteLines (withoutMark bytes)).map fun line =>
    (String.fromUTF8? ⟨line.toArray⟩).map String.toList

/-! ### Values -/

/-- How the next character of a value is read. -/
inductive Mode where
  /-- As it is, between double quotes or not. -/
  | plain (quoted : Bool)
  /-- After a backslash. -/
  | escape (quoted : Bool)
  /-- Between single quotes, where nothing has a meaning. -/
  | single
  /-- In the name of a variable, after a dollar sign. -/
  | name (quoted : Bool) (name : List Char)
  /-- In the name of a variable between braces. -/
  | braced (quoted : Bool) (name : List Char)
  /-- After the blank that ends the value. -/
  | ended
  deriving DecidableEq, Repr

/-- The character that an escape stands for. -/
def escaped? (c : Char) : Option Char :=
  if c = 'n' then some '\n'
  else if c = '\\' || c = '\'' || c = '"' || c = '$' || c = ' ' then some c
  else none

/-- A blank that ends a value. -/
def endsValue (c : Char) : Bool := c == ' ' || c == '\t'

/-- The value that is written, read on in a mode, if it can be read. -/
def readValue (valueOf : List Char → List Char) : Mode → List Char → Option (List Char)
  | .plain quoted, [] => if quoted then none else some []
  | .escape quoted, [] => if quoted then none else some []
  | .single, [] => none
  | .name quoted name, [] => if quoted then none else some (valueOf name)
  | .braced _ _, [] => none
  | .ended, [] => some []
  | .plain quoted, c :: r =>
    if c = '$' then readValue valueOf (.name quoted []) r
    else if c = '\\' then readValue valueOf (.escape quoted) r
    else if c = '"' then readValue valueOf (.plain !quoted) r
    else if c = '\'' && !quoted then readValue valueOf .single r
    else if endsValue c && !quoted then readValue valueOf .ended r
    else (readValue valueOf (.plain quoted) r).map (c :: ·)
  | .escape quoted, c :: r =>
    match escaped? c with
    | some d => (readValue valueOf (.plain quoted) r).map (d :: ·)
    | none => none
  | .single, c :: r =>
    if c = '\'' then readValue valueOf (.plain false) r
    else (readValue valueOf .single r).map (c :: ·)
  | .name quoted name, c :: r =>
    if Text.isAlphanumeric c then readValue valueOf (.name quoted (name ++ [c])) r
    else if c = '{' && name.isEmpty then readValue valueOf (.braced quoted []) r
    -- What ends a name stands for itself, except that a dollar sign starts the next name.
    else if c = '$' then (readValue valueOf (.name quoted []) r).map (valueOf name ++ ·)
    else (readValue valueOf (.plain quoted) r).map (valueOf name ++ c :: ·)
  | .braced quoted name, c :: r =>
    if c = '}' then (readValue valueOf (.plain quoted) r).map (valueOf name ++ ·)
    else readValue valueOf (.braced quoted (name ++ [c])) r
  | .ended, c :: r =>
    if endsValue c then readValue valueOf .ended r
    else if c = '#' then some []
    else none

/-! ### Assignments -/

/-- A letter of the ASCII range or a low line. -/
def startsName (c : Char) : Bool := c.isAlpha || c == '_'

/-- A character that a name goes on with. -/
def continuesName (c : Char) : Bool := c.isAlphanum || c == '_' || c == '.'

/-- The name at the start of a list of characters, and what follows it and its blanks. -/
def splitName? (cs : List Char) : Option (List Char × List Char) :=
  if cs.head?.any startsName then
    some (cs.takeWhile continuesName, Text.trimStartChars (cs.dropWhile continuesName))
  else none

/-- What follows an equals sign and the blanks after it. -/
def afterEquals? : List Char → Option (List Char)
  | '=' :: r => some (Text.trimStartChars r)
  | _ => none

/-- The name of a statement and what is written for its value. The word `export` may
stand before the name, or be the name. -/
def splitStatement? (cs : List Char) : Option (List Char × List Char) := do
  let (name, rest) ← splitName? cs
  match afterEquals? rest with
  | some value => return (name, value)
  | none =>
    -- A variable may itself be called `export`; then an equals sign followed at once.
    if String.ofList name = "export" then
      let (name, rest) ← splitName? rest
      return (name, ← afterEquals? rest)
    else none

/-- Nothing is written, or a comment. -/
def isVoid (cs : List Char) : Bool := cs.isEmpty || cs.head? == some '#'

/-- A variable with its value. -/
structure Assignment where
  name : String
  value : String
  deriving DecidableEq, Repr

/-- What a statement says: nothing, or a variable and its value. -/
inductive Meaning where
  | nothing
  | assigns (assignment : Assignment)
  | unreadable
  deriving DecidableEq, Repr

/-- What a statement says, given the values of variables. -/
def meaning (valueOf : String → String) (statement : List Char) : Meaning :=
  let cs := Text.trimChars statement
  if isVoid cs then .nothing
  else
    match splitStatement? cs with
    | none => .unreadable
    | some (name, written) =>
      if isVoid written then .assigns ⟨String.ofList name, ""⟩
      else
        match readValue (fun n => (valueOf (String.ofList n)).toList) (.plain false) written with
        | none => .unreadable
        | some value => .assigns ⟨String.ofList name, String.ofList value⟩

/-! ### Loading -/

/-- Set a variable, unless it is set. -/
def assign (env : Variables) (a : Assignment) : Variables :=
  if (env.get? a.name).isSome then env else env.insert a.name a.value

/-- The value that a name asks of the variables that are set. They are searched for a
text that begins with the name and an equals sign, so a name that has such a sign itself
asks for the end of a value. -/
def setValue? (env : Variables) (name : String) : Option String :=
  let cs := name.toList
  match cs.dropWhile (· ≠ '=') with
  | [] => env.get? name
  | _ :: start => do
    let value ← env.get? (String.ofList (cs.takeWhile (· ≠ '=')))
    let rest ← (start ++ ['=']).isPrefixOf? value.toList
    return String.ofList rest

/-- The value of a variable that a statement asks for: as it is set, or else as the
file says. -/
def valueFor (env said : Variables) (name : String) : String :=
  ((setValue? env name).or (said.get? name)).getD ""

/-- A value that no variable can have. -/
def isUnfit (value : String) : Bool := value.toList.any (·.toNat == 0)

/-- The variables after statements, given what the file said before. A value with a
zero character that is to be set ends all. -/
def run (env said : Variables) : List Statement → Except Failure Variables
  | [] => .ok env
  | .broken :: _ => .ok env
  | .text cs :: r =>
    match meaning (valueFor env said) cs with
    | .nothing => run env said r
    | .unreadable => .ok env
    | .assigns a =>
      if (env.get? a.name).isNone && isUnfit a.value then .error .crash
      else run (assign env a) (said.insert a.name a.value) r

/-- The variables after a file. -/
def load (bytes : List UInt8) (env : Variables) : Except Failure Variables :=
  run env ∅ (statements bytes)

end EnvFile

end LocalizationMemory
