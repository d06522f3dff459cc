/-!
# Source files

What the parser of a localization file hands over: the file's name, the headers
of its keys and the texts to translate. The two lists run in parallel; where one
is longer, the rest of it is ignored.

## Main definitions

* `KeyInfo` — a key header, with the number of its line if known
* `SourceFile` — a parsed file
* `SourceFile.pairs` — the key headers with their texts
* `baseName` — the name of a file without its directories
-/

namespace LocalizationMemory

/-- The header of a key, as in `key` or `key:0`. -/
structure KeyInfo where
  keyPart : String
  lineNum : Option UInt32 := none
  deriving DecidableEq, Repr

/-- A parsed source file. -/
structure SourceFile where
  filename : String
  keys : List KeyInfo := []
  texts : List String := []
  deriving DecidableEq, Repr

namespace SourceFile

/-- Add a key and its text. The line number counts the keys, from one. -/
def entry (file : SourceFile) (key text : String) : SourceFile :=
  { file with
    keys := file.keys ++ [⟨key, some (UInt32.ofNat file.keys.length + 1)⟩]
    texts := file.texts ++ [text] }

/-- The key headers with their texts. -/
def pairs (file : SourceFile) : List (KeyInfo × String) := file.keys.zip file.texts

/-- There are more keys than texts or more texts than keys. -/
def misaligned (file : SourceFile) : Bool := decide (file.keys.length ≠ file.texts.length)

end SourceFile

/-- The name of a file without its directories, whichever of the two slashes
separates them. -/
def baseName (path : String) : String :=
  String.ofList
    (path.toList.reverse.takeWhile fun c => c != '/' && c != '\\').reverse

end LocalizationMemory
