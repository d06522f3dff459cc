import LocalizationMemory.Archive.Binding
import LocalizationMemory.Key.Index

/-!
# Adopting rendering files

Rendering files that already exist name keys of a language, without saying of
which source file. They are adopted by looking every key up in an index of the
source files' keys, placing its text at the key's place in its file, and archiving
what was placed, language by language. Nothing is archived if no key is known.

## Main definitions

* `Matches` — the texts placed so far
* `Matches.ofFiles` — place the texts of all rendering files
* `AdoptionReport` — what was adopted
* `Action.adopt` — adopt rendering files for a mod
-/

namespace LocalizationMemory

/-- The texts placed so far, by language, file and position; how many of them for
each language; and the keys that are not known. -/
structure Matches where
  byLanguage : Dict AlignedResults := ∅
  matched : Dict Nat := ∅
  unmatched : List String := []

namespace Matches

/-- The places of the first source file of a name, all empty. -/
def emptyPlaces (files : List SourceFile) (filename : String) : List (Option String) :=
  match files.find? (·.filename == filename) with
  | some file => List.replicate file.keys.length none
  | none => []

/-- Place a text at a position of a file, if the file has that position. -/
def place (m : Matches) (files : List SourceFile) (language filename : String) (position : Nat)
    (text : String) : Matches :=
  let results := (m.byLanguage.get? language).getD ∅
  let places := (results.get? filename).getD (emptyPlaces files filename)
  -- A text placed before at this position gives way, and still counts as placed.
  if position < places.length then
    { m with
      byLanguage := m.byLanguage.insert language
        (results.insert filename (places.set position (some text)))
      matched := m.matched.insert language ((m.matched.get? language).getD 0 + 1) }
  else
    { m with byLanguage := m.byLanguage.insert language (results.insert filename places) }

/-- Place the text of a key, if the index knows the key. -/
def addEntry (index : KeyIndex) (files : List SourceFile) (language : String) (m : Matches)
    (entry : String × String) : Matches :=
  match index.resolve? entry.1 with
  | none => { m with unmatched := m.unmatched ++ [entry.1] }
  | some (filename, position) => m.place files language filename position entry.2

/-- Place the texts of a rendering file. Its language is noted in any case. -/
def addFile (index : KeyIndex) (files : List SourceFile) (m : Matches) (t : RenderingFile) :
    Matches :=
  let noted := { m with
    byLanguage := m.byLanguage.insert t.language ((m.byLanguage.get? t.language).getD ∅) }
  t.entries.foldl (addEntry index files t.language) noted

/-- Place the texts of all rendering files. -/
def ofFiles (index : KeyIndex) (files : List SourceFile) (renderings : List RenderingFile) :
    Matches :=
  renderings.foldl (addFile index files) {}

end Matches

/-- The index of the keys of source files. -/
def KeyIndex.ofFiles (files : List SourceFile) : KeyIndex :=
  files.foldl (fun index file =>
    file.keys.zipIdx.foldl (fun index k => index.insert k.1.keyPart file.filename k.2) index) {}

/-- What was adopted. -/
structure AdoptionReport where
  versionId : RowId
  matched : Dict Nat
  unmatched : List String
  archive : Dict ArchiveReport

/-- The number of texts placed. -/
def AdoptionReport.matchCount (r : AdoptionReport) : Nat := r.matched.values.foldr (· + ·) 0

namespace Action

/-- Archive the placed texts, language by language. A language without a file has none. -/
def archiveLanguages (versionId : RowId) (files : List SourceFile) :
    List (String × AlignedResults) → Dict ArchiveReport → Action (Dict ArchiveReport)
  | [], done => return done
  | (language, results) :: r, done =>
    if results.isEmpty then archiveLanguages versionId files r done
    else do
      let archived ← archiveAligned versionId results files language
      archiveLanguages versionId files r (done.insert language archived)

/-- Adopt rendering files for the snapshot of a mod's source files. -/
def adopt (modName : String) (remoteId : Option String) (files : List SourceFile)
    (renderings : List RenderingFile) : Action AdoptionReport := do
  let modId ← ensureNamedMod modName remoteId
  let snapshot ← snapshotChecked modId files
  let m := Matches.ofFiles (KeyIndex.ofFiles files) files renderings
  let found : AdoptionReport := ⟨snapshot.versionId, m.matched, m.unmatched, ∅⟩
  -- The snapshot stays even if nothing is placed.
  if found.matchCount = 0 then
    report (.nothingMatched modName)
    return found
  let archive ← archiveLanguages snapshot.versionId files m.byLanguage.entries ∅
  report (.adopted modName found.matchCount archive.size)
  return { found with archive }

end Action

end LocalizationMemory
