import LocalizationMemory.Archive.Named

/-!
# Storing renderings

An entry has at most one rendering into a language; storing another replaces
its text and its time and keeps its id. Renderings are stored in batches, each
as a whole or not at all. An editor's correction names keys of a file and reaches
the newest version alone.

## Main definitions

* `Archive.putRenderings` — store a batch
* `Action.putRenderings` — store a batch, if it is not empty
* `Archive.correctionTargets` — the entries that corrections reach
* `Action.correct` — store an editor's corrections
-/

namespace LocalizationMemory

/-- A rendering for an entry. -/
abbrev EntryRendering := RowId × String

namespace Archive

/-- The rendering is of this entry and into this language. -/
def translates (entryId : RowId) (language : String) (t : RenderingRow) : Bool :=
  t.entryId == entryId && t.language == language

/-- Store the rendering of an entry, which has to exist. -/
def putRendering (a : Archive) (language : String) (now : Millis) (row : EntryRendering) :
    Except DatabaseFault Archive := do
  let a ← a.accepting .translatedEntries
  if a.entries.rows.any (·.id == row.1) then
    -- The rendering in the way keeps its id, which a history of one time is ordered by.
    return { a with
      renderings := a.renderings.upsert (translates row.1 language)
        ({ · with text := row.2, translatedAt := now })
        fun id => ⟨id, row.1, language, row.2, now⟩ }
  else throw .danglingReference

/-- Store renderings one after the other. -/
def putRenderings (language : String) (now : Millis) :
    List EntryRendering → Archive → Except DatabaseFault Archive
  | [], a => .ok a
  | row :: r, a => do putRenderings language now r (← a.putRendering language now row)

/-- The entry of a file that has exactly this key. -/
def entryWithKey? (entries : List EntryRow) (key : String) : Option EntryRow :=
  entries.reverse.find? (·.key == key)

/-- The entries that corrections reach, with their new texts: those of a file of
a version whose stored key is the one given, to the letter. -/
def correctionTargets (a : Archive) (versionId : RowId) (path : String)
    (corrections : List Correction) : List EntryRendering :=
  let entries := a.entriesOfFile versionId (baseName path)
  corrections.filterMap fun c =>
    (entryWithKey? entries c.key).map fun e => (e.id, c.rendering)

end Archive

namespace Action

/-- Store a batch of renderings and count them. An empty batch takes no right to write. -/
def putRenderings (language : String) (rows : List EntryRendering) : Action Nat :=
  if rows.isEmpty then pure 0
  else write (·.change .translatedEntries fun now a =>
    (Archive.putRenderings language now rows a).map fun b => (rows.length, b))

/-- Store an editor's corrections for a file of the newest version of a mod, and
count those that reach an entry. -/
def correct (modName path : String) (corrections : List Correction) (language : String) :
    Action Nat := do
  match ← latestVersionNamed modName with
  | none => return 0
  | some v =>
    let rows ← readFilesBy .entriesOfFile (fun _ => [.entriesOfFile]) .sourceEntries
      (·.correctionTargets v.id path corrections)
    putRenderings language rows

end Action

end LocalizationMemory
