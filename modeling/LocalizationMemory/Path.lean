/-!
# Paths

A path leads step by step through directories. Its steps are its parts between
slashes; an empty part and a single dot stay where they are, and a double dot goes
back. A place is given by the names that lead to it from the root.

## Main definitions

* `splitAtEach` — the parts of a list between separators
* `Path.pieces`, `Path.steps` — the parts of a path, and those that lead on
* `Path.place` — the place that steps lead to, whatever is there
* `Path.isLongName`, `Path.isLong` — the limits of the file system
-/

namespace LocalizationMemory

/-- The parts of a list between the elements that are equal to a separator. -/
def splitAtEach (sep : Char) : List Char → List (List Char)
  | [] => [[]]
  | c :: r =>
    if c = sep then [] :: splitAtEach sep r
    else
      match splitAtEach sep r with
      | [] => [[c]]
      | part :: parts => (c :: part) :: parts

namespace Path

/-- The parts of a path between its slashes. -/
def pieces (path : String) : List String := (splitAtEach '/' path.toList).map String.ofList

/-- The part stays where it is. -/
def stays (piece : String) : Bool := piece == "" || piece == "."

/-- The steps of a path: the parts that do not stay. -/
def steps (path : String) : List String := (pieces path).filter (!stays ·)

/-- The place after a part, given from its end to the root: a double dot takes back
the step before it. -/
def advance (back : List String) (piece : String) : List String :=
  if stays piece then back else if piece = ".." then back.tail else piece :: back

/-- The place that steps lead to, whatever is there, given from the root down. -/
def place (steps : List String) : List String := (steps.foldl advance []).reverse

/-- The position in bytes of the first zero byte. -/
def zeroByte? (path : String) : Option Nat :=
  let before := path.toList.takeWhile (·.toNat ≠ 0)
  if before.length < path.toList.length then some (String.ofList before).utf8ByteSize else none

/-- The number of bytes that the longest name has. -/
def longestName : Nat := 255

/-- The name is longer than names can be. -/
def isLongName (name : String) : Bool := longestName < name.utf8ByteSize

/-- The number of bytes of steps, each with its slash. -/
def byteSize (steps : List String) : Nat := (String.join (steps.map ("/" ++ ·))).utf8ByteSize

/-- The steps are more bytes than a path can have, which is fewer than 4096. -/
def isLong (steps : List String) : Bool := 4096 < byteSize steps

end Path

end LocalizationMemory
