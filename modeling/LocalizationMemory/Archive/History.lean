import LocalizationMemory.Archive.Renderings

/-!
# Reading a file back with its history

A file is read back as the newest version of its mod has it, and every key with
the last rendering it was ever given in a file of that name, in whatever
version. So a line keeps its rendering when the version moves on.

## Main definitions

* `Archive.renderingHistory` — the renderings of a file of a mod, the oldest first
* `Archive.archivedEntries` — a file of the newest version with its renderings
* `Action.archivedEntries` — reading it back
-/

namespace LocalizationMemory

namespace Archive

/-- The entry with an id. -/
def entryWithId? (a : Archive) (id : RowId) : Option EntryRow := a.entries.rows.find? (·.id == id)

/-- The key of the entry that a rendering belongs to, if the entry is of a file
of a mod, in whatever version. -/
def keyOfRendering? (a : Archive) (modId : RowId) (file : String) (t : RenderingRow) :
    Option String := do
  let e ← a.entryWithId? t.entryId
  let v ← a.versionWithId? e.versionId
  if v.modId = modId ∧ e.file = some file then some e.key else none

/-- A rendering was stored no later than another; of one time, the lower id is older. -/
def notNewer (t u : RenderingRow) : Bool :=
  decide (t.translatedAt < u.translatedAt ∨ (t.translatedAt = u.translatedAt ∧ t.id ≤ u.id))

/-- The keys and renderings of a file of a mod into a language, the oldest first. -/
def renderingHistory (a : Archive) (modId : RowId) (file language : String) :
    List (String × String) :=
  -- Every version of the mod counts, not the newest alone.
  (sortBy notNewer (a.renderings.rows.filter (·.language == language))).filterMap fun t =>
    (a.keyOfRendering? modId file t).map fun key => (key, t.text)

/-- The last rendering of a key in a history. -/
def lastRendering? (history : List (String × String)) (key : String) : Option String :=
  (history.reverse.find? (·.1 == key)).map (·.2)

/-- The entries of a file of a version of a mod, each with the last rendering
its key was given. -/
def entriesWithHistory (a : Archive) (v : VersionRow) (file language : String) :
    List ArchivedEntry :=
  let history := a.renderingHistory v.modId file language
  (a.entriesOfFile v.id file).map fun e => ⟨e.key, e.text, lastRendering? history e.key⟩

/-- The newest version of the mod of a name. -/
def latestVersionNamed? (a : Archive) (modName : String) : Option VersionRow :=
  (a.mod? modName).bind fun m => a.latestVersion? m.id

/-- A file of the newest version of a mod, with its renderings into a language.
There is nothing to read without a mod, a version or an entry of the file. -/
def archivedEntries (a : Archive) (modName path language : String) : List ArchivedEntry :=
  match a.latestVersionNamed? modName with
  | none => []
  | some v => a.entriesWithHistory v (baseName path) language

end Archive

namespace Action

/-- The keys and renderings of a file of a mod into a language, the oldest first. -/
def renderingHistory (modId : RowId) (file language : String) :
    Action (List (String × String)) :=
  readFilesBy .renderingHistory (fun _ => [.renderingHistory]) .translatedEntries
    (·.renderingHistory modId file language)

/-- A file of the newest version of a mod, with its renderings into a language. -/
def archivedEntries (modName path language : String) : Action (List ArchivedEntry) := do
  match ← latestVersionNamed modName with
  | none => return []
  | some v =>
    -- The history of a file without entries is not asked for.
    readFilesBy .entriesOfFile
      (fun a =>
        if (a.entriesOfFile v.id (baseName path)).isEmpty then [.entriesOfFile]
        else [.entriesOfFile, .renderingHistory])
      .sourceEntries (·.entriesWithHistory v (baseName path) language)

end Action

end LocalizationMemory
