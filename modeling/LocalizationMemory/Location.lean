import LocalizationMemory.Fault
import LocalizationMemory.Path
import LocalizationMemory.Text.Bytes
import LocalizationMemory.Text.Hex

/-!
# What the path of a database asks for

The path of a database is the path of a file, or it begins with `file:` and is an
identifier of a resource. Then the path of the file follows, after two slashes and the
name of a host if there is one, and after a question mark there may be options. A byte can
be written as a percent sign and two hexadecimal digits, and what follows a number
sign is a comment.

## Main definitions

* `OpenMode` — what may be done with a file
* `Location` — what a path asks for
* `Location.ofPath` — read a path
-/

namespace LocalizationMemory

/-! ### Escapes -/

namespace Text

/-- The byte that two hexadecimal digits stand for. -/
def hexByte? (high low : UInt8) : Option UInt8 := do
  let high ← Hex.value? (Char.ofNat high.toNat)
  let low ← Hex.value? (Char.ofNat low.toNat)
  return UInt8.ofNat (16 * high + low)

/-- Bytes with percent signs and digits read. An escaped zero byte ends them. -/
def percentDecoded : List UInt8 → List UInt8
  | [] => []
  | [b] => [b]
  | [b, c] => [b, c]
  | b :: high :: low :: r =>
    if b = '%'.toNat.toUInt8 then
      match hexByte? high low with
      | some c => if c = 0 then [] else c :: percentDecoded r
      | none => b :: percentDecoded (high :: low :: r)
    else b :: percentDecoded (high :: low :: r)

/-- The text of bytes. Bytes that are no text get the one name that no text has: their
digits after a zero character. -/
def ofBytes (bytes : List UInt8) : String :=
  match String.fromUTF8? ⟨bytes.toArray⟩ with
  | some text => text
  | none => "\x00" ++ Hex.encode bytes

/-- A text with its escapes read. -/
def unescaped (cs : List Char) : String := ofBytes (percentDecoded (utf8 (String.ofList cs)))

end Text

/-! ### Locations -/

/-- What may be done with a file. -/
inductive OpenMode where
  | readOnly
  /-- A file that is there may be changed. -/
  | readWrite
  /-- A file may be changed, and is made if there is none. -/
  | create
  /-- There is no file; all is kept in memory. -/
  | memory
  deriving DecidableEq, Repr

namespace OpenMode

/-- The mode of a name. -/
def ofText? (name : String) : Option OpenMode :=
  match name with
  | "ro" => some readOnly
  | "rw" => some readWrite
  | "rwc" => some create
  | "memory" => some memory
  | _ => none

/-- How much a mode allows. -/
def rank : OpenMode → Nat
  | readOnly => 1
  | readWrite => 2
  | create => 3
  | memory => 4

/-- The mode may take the place of another, which it must not exceed. Memory can
always be asked for. -/
def mayReplace (mode other : OpenMode) : Bool := mode = memory || mode.rank ≤ other.rank

end OpenMode

/-- What the path of a database asks for. -/
structure Location where
  /-- The path of the file. -/
  path : String
  mode : OpenMode := .create
  /-- The file system to use. -/
  fileSystem : String := "unix"
  /-- All who ask for this name in memory share what is there. -/
  shared : Bool := false
  /-- The file is said never to change. -/
  frozen : Bool := false
  /-- No one asks for a right before reading or writing. -/
  lockless : Bool := false
  deriving DecidableEq, Repr

namespace Location

/-- The file systems that are known. -/
def fileSystems : List String := ["unix", "unix-none", "unix-dotfile", "unix-excl", "memdb"]

/-- What is behind the name of a host, which has to be this one. -/
def withoutHost : List Char → Except DatabaseFault (List Char)
  | '/' :: '/' :: r =>
    let host := String.ofList (r.takeWhile (· ≠ '/'))
    if host = "" ∨ host = "localhost" then .ok (r.dropWhile (· ≠ '/'))
    else .error (.foreignHost host)
  | cs => .ok cs

/-- The name and the value of an option. -/
def splitOption (cs : List Char) : String × String :=
  (Text.unescaped (cs.takeWhile (· ≠ '=')), Text.unescaped ((cs.dropWhile (· ≠ '=')).drop 1))

/-- The options between ampersands. Those without a name are left out. -/
def options (cs : List Char) : List (String × String) :=
  ((splitAtEach '&' cs).map splitOption).filter (·.1 != "")

/-- The value stands for yes: a word, or a number that fits and whose last byte is not zero. -/
def isYes (value : String) : Bool :=
  let digits := value.toList.takeWhile (·.isDigit)
  if digits.isEmpty then ["on", "true", "yes"].contains value.toLower
  else
    let n := digits.foldl (fun n c => 10 * n + (c.toNat - '0'.toNat)) 0
    n < Nat.pow 2 31 && n % 256 != 0

/-- The first of the options with this name stands for yes. -/
def isSet (options : List (String × String)) (name : String) : Bool :=
  (options.find? (·.1 == name)).any fun option => isYes option.2

/-- The location with an option. Unknown options say nothing. -/
def withOption (l : Location) (option : String × String) : Except DatabaseFault Location :=
  match option with
  | ("mode", value) =>
    match OpenMode.ofText? value with
    | none => .error (.noSuchMode .access value)
    | some mode =>
      if mode.mayReplace l.mode then .ok { l with mode }
      else .error (.modeNotAllowed .access value)
  | ("cache", "shared") => .ok { l with shared := true }
  | ("cache", "private") => .ok { l with shared := false }
  | ("cache", value) => .error (.noSuchMode .cache value)
  | ("vfs", value) => .ok { l with fileSystem := value }
  | _ => .ok l

/-- The location, if its file system is known. One of them is memory. -/
def inFileSystem (l : Location) : Except DatabaseFault Location :=
  if fileSystems.contains l.fileSystem then
    .ok (if l.fileSystem = "memdb" then { l with mode := .memory } else l)
  else .error (.noSuchFileSystem l.fileSystem)

/-- What an identifier asks for, after `file:`. -/
def ofIdentifier (cs : List Char) : Except DatabaseFault Location := do
  let cs := (← withoutHost cs).takeWhile (· ≠ '#')
  let options := options ((cs.dropWhile (· ≠ '?')).drop 1)
  let l : Location :=
    { path := Text.unescaped (cs.takeWhile (· ≠ '?'))
      frozen := isSet options "immutable"
      lockless := isSet options "nolock" }
  (← options.foldlM withOption l).inFileSystem

/-- What a path asks for. -/
def ofPath (path : String) : Except DatabaseFault Location :=
  match "file:".toList.isPrefixOf? path.toList with
  | some cs => ofIdentifier cs
  | none => .ok { path }

/-- No one else sees what is there by another path: it is kept in memory, or in a file
without a name. -/
def isNameless (l : Location) : Bool := l.path == ":memory:" || l.path == "" || l.mode = .memory

/-- There are no rights on the file that connections share. -/
def isUnguarded (l : Location) : Bool :=
  if l.path == ":memory:" || l.path == "" then l.fileSystem == "memdb"
  else l.lockless || ["unix-none", "unix-dotfile", "memdb"].contains l.fileSystem

end Location

end LocalizationMemory
