import LocalizationMemory.Source
import LocalizationMemory.Text.Dict

/-!
# Renderings as they are exchanged

The *rendering* of an entry is its text in another language. Renderings travel in
four shapes: read back from the archive beside their source text, edited by hand for
a key, returned by a translator for the texts of a file, and read from a rendering
file that already exists.

## Main definitions

* `ArchivedEntry` — a source text with its rendering, if it has one
* `Correction` — a rendering given by hand for a key
* `FileResults` — the renderings of each file, in the order of its texts
* `AlignedResults` — the same by position, where a position may be left out
* `RenderingFile` — keys and renderings of one language
* `TranslatorRequest` — the texts of a file that a translator is asked for
-/

namespace LocalizationMemory

/-- A source text with its rendering, if it has one. -/
structure ArchivedEntry where
  key : String
  source : String
  rendering : Option String
  deriving DecidableEq, Repr

/-- A rendering given by hand for a key. -/
structure Correction where
  key : String
  rendering : String
  deriving DecidableEq, Repr

/-- The renderings of each file, in the order of its texts. -/
abbrev FileResults := Dict (List String)

/-- The renderings of each file by position; nothing is known where there is none. -/
abbrev AlignedResults := Dict (List (Option String))

/-- The keys and renderings of one language, as read from a file. -/
structure RenderingFile where
  language : String
  entries : List (String × String)
  deriving DecidableEq, Repr

/-- The texts of one file that a translator is asked for. -/
structure TranslatorRequest where
  filename : String
  texts : List String
  deriving DecidableEq, Repr

end LocalizationMemory
