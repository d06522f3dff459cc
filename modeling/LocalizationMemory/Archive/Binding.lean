import LocalizationMemory.Archive.Resolution
import LocalizationMemory.Archive.Renderings

/-!
# Binding results to entries

Results name files and give renderings in the order of the keys of a source
file. Each rendering is bound to the entry that its key means in a version; what
finds no entry is left out and reported. All that is bound is stored in one batch.

## Main definitions

* `ArchiveReport` — what was stored and what was not
* `Binding` — the renderings bound
* `Action.bindResults` — bind results to the entries of a version
* `Action.archiveAligned` — bind results and store them
* `Action.archiveResults` — the same for results without gaps
-/

namespace LocalizationMemory

/-- A key that no entry was found for. -/
structure UnresolvedKey where
  filename : String
  key : String
  deriving DecidableEq, Repr

/-- What was stored of a set of results, and what was not. -/
structure ArchiveReport where
  archived : Nat
  unresolved : List UnresolvedKey
  /-- Files that results name and that are not among the source files. -/
  unknownFiles : List String
  deriving DecidableEq, Repr

/-- The number of renderings left out. -/
def ArchiveReport.skipped (r : ArchiveReport) : Nat := r.unresolved.length

/-- Renderings bound to entries, and what was not bound. -/
structure Binding where
  rows : List EntryRendering := []
  unresolved : List UnresolvedKey := []
  unknownFiles : List String := []
  deriving DecidableEq, Repr

/-- One binding after another. -/
def Binding.append (b c : Binding) : Binding :=
  ⟨b.rows ++ c.rows, b.unresolved ++ c.unresolved, b.unknownFiles ++ c.unknownFiles⟩

instance : Append Binding := ⟨Binding.append⟩

namespace Action

/-- Bind one rendering to the entry that a key of a file means. -/
def bindKey (versionId : RowId) (filename rawKey text : String) : Action Binding := do
  match ← resolve versionId filename rawKey with
  | some r => return { rows := [(r.entryId, text)] }
  | none => return { unresolved := [⟨filename, Key.normalize rawKey⟩] }

/-- Bind the renderings that are there to their keys. -/
def bindKeys (versionId : RowId) (filename : String) :
    List (KeyInfo × Option String) → Action Binding
  | [] => return {}
  | (_, none) :: r => bindKeys versionId filename r
  | (info, some text) :: r => do
    let first ← bindKey versionId filename info.keyPart text
    let others ← bindKeys versionId filename r
    return first ++ others

/-- Bind the results for one file to the first source file of its name. -/
def bindFile (versionId : RowId) (files : List SourceFile) (filename : String)
    (renderings : List (Option String)) : Action Binding := do
  -- A file without results is not even looked for.
  if renderings.isEmpty then return {}
  match files.find? (·.filename == filename) with
  | none =>
    report (.unknownFile filename)
    return { unknownFiles := [filename] }
  | some file =>
    if renderings.length ≠ file.keys.length then
      report (.countDiffers filename file.keys.length renderings.length)
    bindKeys versionId filename (file.keys.zip renderings)

/-- Bind the results for each file, by ascending name. -/
def bindResults (versionId : RowId) (files : List SourceFile) :
    List (String × List (Option String)) → Action Binding
  | [] => return {}
  | (filename, renderings) :: r => do
    let first ← bindFile versionId files filename renderings
    let others ← bindResults versionId files r
    return first ++ others

/-- Bind results to the entries of a version and store them. -/
def archiveAligned (versionId : RowId) (results : AlignedResults) (files : List SourceFile)
    (language : String) : Action ArchiveReport := do
  -- Nothing is read before there is a key to resolve, and nothing is stored before all are bound.
  let b ← bindResults versionId files results.entries
  let archived ← putRenderings language b.rows
  let r : ArchiveReport := ⟨archived, b.unresolved, b.unknownFiles⟩
  if 0 < r.skipped then
    report (.renderingsDropped r.skipped versionId language)
  report (.renderingsArchived archived language)
  return r

/-- Bind results without gaps to the entries of a version and store them. -/
def archiveResults (versionId : RowId) (results : FileResults) (files : List SourceFile)
    (language : String) : Action ArchiveReport :=
  archiveAligned versionId (results.map (·.map some)) files language

end Action

end LocalizationMemory
