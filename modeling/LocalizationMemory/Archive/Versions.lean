import LocalizationMemory.Archive.Action
import LocalizationMemory.Sorting

/-!
# Versions of a mod's source

A snapshot stores the entries of a list of source files under a new version,
unless a version of the same hash exists, of whatever mod. Keys are stored in
their normalized form; of two entries with one key in one file the first stays.

## Main definitions

* `Archive.versionsOf` — the versions of a mod, the newest first
* `Archive.latestVersion?` — the newest version of a mod
* `Archive.addVersion` — store a version with its entries
* `Action.snapshot` — find or store the version of a list of files
* `Archive.versionSummaries`, `Archive.languageStats` — what versions hold
-/

namespace LocalizationMemory

/-- What a snapshot comes to. -/
structure Snapshot where
  versionId : RowId
  /-- The version is new, not an older one of the same hash. -/
  created : Bool
  entriesWritten : Nat
  deriving DecidableEq, Repr

/-- What a version holds. -/
structure VersionSummary where
  version : VersionRow
  entryCount : Nat
  files : List String
  deriving DecidableEq, Repr

/-- How many entries have a rendering into a language. -/
structure LanguageStat where
  language : String
  translated : Nat
  deriving DecidableEq, Repr

/-- An entry as it is to be stored. -/
structure SourceLine where
  file : String
  key : String
  text : String
  deriving DecidableEq, Repr

/-- The entries of a list of files as they are to be stored. -/
def sourceLines (files : List SourceFile) : List SourceLine :=
  files.flatMap fun f => f.pairs.map fun p => ⟨f.filename, Key.normalize p.1.keyPart, p.2⟩

namespace Archive

/-- The version of a hash. -/
def versionByHash? (a : Archive) (hash : String) : Option VersionRow :=
  a.versions.rows.find? (·.hash == hash)

/-- The version with an id. -/
def versionWithId? (a : Archive) (id : RowId) : Option VersionRow :=
  a.versions.rows.find? (·.id == id)

/-- A version comes before another in the order from new to old: by its time, and
by its id among versions of one time. -/
def notOlder (v w : VersionRow) : Bool :=
  decide (w.createdAt < v.createdAt ∨ (w.createdAt = v.createdAt ∧ w.id ≤ v.id))

/-- The versions of a mod, the newest first. -/
def versionsOf (a : Archive) (modId : RowId) : List VersionRow :=
  sortBy notOlder (a.versions.rows.filter (·.modId == modId))

/-- The newest version of a mod. -/
def latestVersion? (a : Archive) (modId : RowId) : Option VersionRow := (a.versionsOf modId).head?

/-- The entries of a version. -/
def entriesOf (a : Archive) (versionId : RowId) : List EntryRow :=
  a.entries.rows.filter (·.versionId == versionId)

/-- The entries of a file of a version. -/
def entriesOfFile (a : Archive) (versionId : RowId) (file : String) : List EntryRow :=
  (a.entriesOf versionId).filter (·.file == some file)

/-- Insert a version. Its mod has to exist and its hash to be new. -/
def insertVersion (a : Archive) (modId : RowId) (hash : String) (now : Millis) :
    Except DatabaseFault Archive := do
  let a ← a.accepting .sourceVersions
  if (a.versionByHash? hash).isSome then throw .duplicateHash
  if a.mods.rows.any (·.id == modId) then
    return { a with versions := a.versions.add fun id => ⟨id, modId, hash, now⟩ }
  else throw .danglingReference

/-- A stored entry keeps a line from being stored in a version. -/
def inTheWay (layout : Layout) (versionId : RowId) (line : SourceLine) (e : EntryRow) : Bool :=
  e.versionId == versionId && e.key == line.key &&
    (layout.keysPerVersion || e.file == some line.file)

/-- Insert an entry, unless one is in the way. -/
def insertEntry (a : Archive) (versionId : RowId) (line : SourceLine) :
    Except DatabaseFault Archive := do
  let a ← a.accepting .sourceEntries
  return { a with
    entries := a.entries.addUnless (inTheWay a.layout versionId line) fun id =>
      ⟨id, versionId, line.key, line.text, some line.file⟩ }

/-- Insert entries one after the other. -/
def insertEntries (versionId : RowId) : List SourceLine → Archive → Except DatabaseFault Archive
  | [], a => .ok a
  | line :: r, a => do insertEntries versionId r (← a.insertEntry versionId line)

/-- Set the time a mod was last updated. -/
def touchMod (a : Archive) (modId : RowId) (now : Millis) : Archive :=
  { a with mods := a.mods.updateWhere (·.id == modId) ({ · with lastUpdated := now }) }

/-- Store a version with its entries. -/
def addVersion (a : Archive) (modId : RowId) (files : List SourceFile) (now : Millis) :
    Except DatabaseFault (Snapshot × Archive) := do
  let b ← a.insertVersion modId (snapshotHash files) now
  if b.layout.hasFilePaths then
    -- Entries that were ignored as duplicates are not counted.
    let c ← insertEntries b.versions.lastId (sourceLines files) b
    return (⟨b.versions.lastId, true, c.entries.rows.length - b.entries.rows.length⟩,
      c.touchMod modId now)
  else throw .noFilePathToWrite

/-- What a version holds; an entry without a file counts for the empty name. -/
def versionSummary (a : Archive) (v : VersionRow) : VersionSummary :=
  let entries := a.entriesOf v.id
  { version := v
    entryCount := entries.length
    files := (Dict.ofList (entries.map fun e => (e.file.getD "", ()))).keys }

/-- What the versions of a mod hold, the newest first. -/
def versionSummaries (a : Archive) (modId : RowId) : List VersionSummary :=
  (a.versionsOf modId).map a.versionSummary

/-- The languages of the renderings of a version's entries, one for each rendering. -/
def languagesOf (a : Archive) (versionId : RowId) : List String :=
  (a.renderings.rows.filter fun t =>
    (a.entriesOf versionId).any (·.id == t.entryId)).map (·.language)

/-- How many entries of a version are translated, by language. -/
def languageStats (a : Archive) (versionId : RowId) : List LanguageStat :=
  let languages := a.languagesOf versionId
  (Dict.ofList (languages.map fun l => (l, ()))).keys.map fun l => ⟨l, languages.count l⟩

end Archive

/-- The reports on files whose keys and texts do not match in number. -/
def misalignments (files : List SourceFile) : List Event :=
  (files.filter (·.misaligned)).map fun f => .misaligned f.filename f.keys.length f.texts.length

namespace Action

/-- The version of a hash. -/
def versionWithHash (hash : String) : Action (Option VersionRow) :=
  read .sourceVersions (·.versionByHash? hash)

/-- The newest version of a mod. -/
def latestVersion (modId : RowId) : Action (Option VersionRow) :=
  read .sourceVersions (·.latestVersion? modId)

/-- Store the version of a list of files that a look-up did not find. Another
connection may have stored one of the same hash since; then that is the one wanted. -/
def commitVersion (modId : RowId) (files : List SourceFile) : Action Snapshot := do
  let s ← write fun access a =>
    match a.versionByHash? (snapshotHash files) with
    | some v => .ok (⟨v.id, false, 0⟩, a)
    | none => access.change .sourceVersions (fun now a => a.addVersion modId files now) a
  if s.created then
    report (.versionCreated s.versionId modId (snapshotHash files))
    report (.entriesArchived s.entriesWritten s.versionId)
  return s

/-- Find the version of a list of files, or store it. -/
def snapshot (modId : RowId) (files : List SourceFile) : Action Snapshot := do
  let hash := snapshotHash files
  match ← versionWithHash hash with
  -- The version may be of another mod: only the texts decide.
  | some v =>
    report (.versionExists hash v.id)
    return ⟨v.id, false, 0⟩
  | none => commitVersion modId files

/-- Find or store the version of a list of files, after a report on files whose
keys and texts do not match in number. -/
def snapshotChecked (modId : RowId) (files : List SourceFile) : Action Snapshot := do
  reportAll (misalignments files)
  snapshot modId files

/-- What the versions of a mod hold, the newest first. -/
def versionSummaries (modId : RowId) : Action (List VersionSummary) :=
  readFiles .sourceVersions (·.versionSummaries modId)

/-- How many entries of a version are translated, by language. -/
def languageStats (versionId : RowId) : Action (List LanguageStat) :=
  read .translatedEntries (·.languageStats versionId)

/-- The entries of a file of a version. -/
def entriesOfFile (versionId : RowId) (file : String) : Action (List EntryRow) :=
  readFilesBy .entriesOfFile (fun _ => [.entriesOfFile]) .sourceEntries
    (·.entriesOfFile versionId file)

end Action

end LocalizationMemory
