import LocalizationMemory.Archive.Action

/-!
# Maintenance of an archive

Rows can be put into the states that archives of older times are in, and inserts can be
made to fail from a given size of a table on.

## Main definitions

* `Archive.assignFile` — give entries another file, or none
* `Archive.addRule`, `Archive.clearRules` — refuse inserts, or accept them again
* `Archive.ofOldRows` — an archive of the older layout
* `Action.countRows`, `Action.assignFile`, `Action.addRule`, `Action.clearRules` — the
  same as actions
-/

namespace LocalizationMemory

/-- Which entries to change: those that have every value named here. -/
structure EntryFilter where
  versionId : Option RowId := none
  key : Option String := none
  file : Option String := none
  deriving DecidableEq, Repr

/-- The entry has every value named. -/
def EntryFilter.selects (f : EntryFilter) (e : EntryRow) : Bool :=
  f.versionId.all (· == e.versionId) && f.key.all (· == e.key) &&
    (f.file.isNone || f.file == e.file)

namespace Archive

/-- Two entries are of one version, file and key; entries without a file never are. -/
def sameFileAndKey (e f : EntryRow) : Bool :=
  e.versionId == f.versionId && e.key == f.key && e.file.isSome && e.file == f.file

/-- No two of these entries are of one version, file and key. -/
def noDuplicates : List EntryRow → Bool
  | [] => true
  | e :: r => !r.any (sameFileAndKey e) && noDuplicates r

/-- Give the selected entries a file, or none, and count them. Nothing changes if
two entries of today's layout would then be of one version, file and key. -/
def assignFile (a : Archive) (filter : EntryFilter) (file : Option String) :
    Except DatabaseFault (Nat × Archive) :=
  let b := { a with entries := a.entries.updateWhere filter.selects ({ · with file }) }
  -- Tables of the older layout compare keys within a version, which no file changes.
  if b.layout = .current && !noDuplicates b.entries.rows then .error .duplicateEntry
  else .ok (a.entries.rows.countP filter.selects, b)

/-- From now on refuse inserts into a table that has so many rows or more. -/
def addRule (a : Archive) (rule : InsertRule) : Archive := { a with rules := rule :: a.rules }

/-- Accept all inserts again. -/
def clearRules (a : Archive) : Archive := { a with rules := [] }

/-- Rows under the ids from one on. -/
def tableOf {α ρ : Type} (row : RowId → α → ρ) (values : List α) : Table ρ :=
  ⟨values.zipIdx.map fun p => row (Int.ofNat p.2 + 1) p.1, Int.ofNat values.length⟩

/-- An archive of the older layout, with mods by name, versions by mod, hash and
time, and entries by version, key and text. -/
def ofOldRows (mods : List String) (versions : List (RowId × String × Millis))
    (entries : List (RowId × String × String)) : Archive :=
  { layout := .old
    mods := tableOf (fun id name => ⟨id, name, 0⟩) mods
    versions := tableOf (fun id v => ⟨id, v.1, v.2.1, v.2.2⟩) versions
    entries := tableOf (fun id e => ⟨id, e.1, e.2.1, e.2.2, none⟩) entries }

end Archive

namespace Action

/-- The number of rows of a table. -/
def countRows (table : TableName) : Action Nat := read table (·.rowCount table)

/-- Give the selected entries a file, or none, and count them. -/
def assignFile (filter : EntryFilter) (file : Option String) : Action Nat :=
  alter (fun a =>
    if a.layout.hasFilePaths then .ok ()
    else if a.layout.hasTables then .error (.noSuchColumn "file_path")
    else .error (.noSuchTable .sourceEntries)) (·.assignFile filter file)

/-- From now on refuse inserts by a rule. -/
def addRule (rule : InsertRule) : Action Unit :=
  alter (fun a => if a.layout.hasTables then .ok () else .error (.noSuchRuleTable rule.table))
    fun a => .ok ((), a.addRule rule)

/-- Accept all inserts again. Without a rule there is nothing to write. -/
def clearRules : Action Unit := fun access a =>
  if a.rules.isEmpty then inspect (fun _ => .ok ()) access a
  else alter (fun _ => .ok ()) (fun a => .ok ((), a.clearRules)) access a

end Action

end LocalizationMemory
