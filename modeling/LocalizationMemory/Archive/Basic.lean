import LocalizationMemory.Archive.Table
import LocalizationMemory.Fault

/-!
# Archives

An archive is the content of a database file: the rows of the five tables, the
counters for their ids, the layout of the tables, and the rules that make inserts
fail when a table has grown to a given size.

## Main definitions

* `ModRow`, `AliasRow`, `VersionRow`, `EntryRow`, `RenderingRow` — the rows
* `InsertRule` — from some size on, inserts into a table are refused
* `Archive` — the content of a database file
* `Archive.refusal?` — the rule that refuses the next insert into a table
* `Archive.prepare` — make missing tables and give old entries a file

## Main results

* `Archive.prepare_prepare` — preparing twice is preparing once
-/

namespace LocalizationMemory

/-- A mod. Its name decides whether two are the same. -/
structure ModRow where
  id : RowId
  name : String
  lastUpdated : Millis
  deriving DecidableEq, Repr

/-- The id of a mod in another system. -/
structure AliasRow where
  id : RowId
  modId : RowId
  remoteId : String
  deriving DecidableEq, Repr

/-- A version of the source of a mod. Its hash is unique among all mods. -/
structure VersionRow where
  id : RowId
  modId : RowId
  hash : String
  createdAt : Millis
  deriving DecidableEq, Repr

/-- An entry of a version. Old entries may have an empty file or none. -/
structure EntryRow where
  id : RowId
  versionId : RowId
  key : String
  text : String
  file : Option String
  deriving DecidableEq, Repr

/-- The rendering of an entry into a language. -/
structure RenderingRow where
  id : RowId
  entryId : RowId
  language : String
  text : String
  translatedAt : Millis
  deriving DecidableEq, Repr

/-- Inserts into `table` are refused with `text` while it has `size` rows or more. -/
structure InsertRule where
  table : TableName
  size : Nat
  text : String
  deriving DecidableEq, Repr

/-- The content of a database file. -/
structure Archive where
  layout : Layout := .blank
  mods : Table ModRow := {}
  aliases : Table AliasRow := {}
  versions : Table VersionRow := {}
  entries : Table EntryRow := {}
  renderings : Table RenderingRow := {}
  rules : List InsertRule := []
  deriving DecidableEq, Repr

namespace Archive

/-- An archive of today's layout without a row. -/
def fresh : Archive := { layout := .current }

/-- The number of rows of a table. -/
def rowCount (a : Archive) : TableName → Nat
  | .mods => a.mods.rows.length
  | .modIdentities => a.aliases.rows.length
  | .sourceVersions => a.versions.rows.length
  | .sourceEntries => a.entries.rows.length
  | .translatedEntries => a.renderings.rows.length

/-- The fault of the next insert into a table, if a rule refuses it. -/
def refusal? (a : Archive) (table : TableName) : Option DatabaseFault :=
  (a.rules.find? fun r => r.table = table && r.size ≤ a.rowCount table).map (.refused ·.text)

/-- The archive, unless a rule refuses the next insert into a table. -/
def accepting (a : Archive) (table : TableName) : Except DatabaseFault Archive :=
  match a.refusal? table with
  | some fault => .error fault
  | none => .ok a

/-- Make the missing tables, and give entries of an older layout an empty file. -/
def prepare (a : Archive) : Archive :=
  if a.layout = .old then
    { a with
      layout := .extended
      entries := { a.entries with rows := a.entries.rows.map ({ · with file := some "" }) } }
  else { a with layout := a.layout.prepared }

theorem layout_prepare (a : Archive) : a.prepare.layout = a.layout.prepared := by
  unfold prepare
  split
  · next h => rw [h]; rfl
  · rfl

/-- Preparing twice is preparing once. -/
theorem prepare_prepare (a : Archive) : a.prepare.prepare = a.prepare := by
  have hl := layout_prepare a
  have hold : a.prepare.layout ≠ .old := by
    rw [hl]; cases a.layout <;> simp [Layout.prepared]
  rw [prepare.eq_def a.prepare, if_neg hold, hl, Layout.prepared_prepared, ← hl]

end Archive

end LocalizationMemory
