/-!
# The tables of an archive

An archive keeps five tables: mods, their aliases in another system, the
versions of a mod's source, the entries of a version, and the renderings of an
entry. A file may hold no tables yet, or the tables of an older time whose
entries named no file.

## Main definitions

* `TableName` — the five tables, with the names errors use for them
* `Layout` — which tables there are, and of which time
* `Layout.hasTables`, `Layout.hasFilePaths`, `Layout.keysPerVersion` — what follows from it
-/

namespace LocalizationMemory

/-- The tables of an archive. -/
inductive TableName where
  | mods
  | modIdentities
  | sourceVersions
  | sourceEntries
  | translatedEntries
  deriving DecidableEq, Repr

namespace TableName

/-- All five tables. -/
def all : List TableName :=
  [mods, modIdentities, sourceVersions, sourceEntries, translatedEntries]

/-- The name of a table. -/
def text : TableName → String
  | mods => "mods"
  | modIdentities => "mod_identities"
  | sourceVersions => "source_versions"
  | sourceEntries => "source_entries"
  | translatedEntries => "translated_entries"

/-- The table of a name. -/
def ofText? (name : String) : Option TableName := all.find? (·.text == name)

end TableName

/-- Which tables a file holds. -/
inductive Layout where
  /-- No table at all. -/
  | blank
  /-- Tables of the older time: entries name no file, and a key occurs once in a version. -/
  | old
  /-- Tables of the older time after entries were given a file. The rule of one key
  for each version stays. -/
  | extended
  /-- The tables of today: a key occurs once in a file of a version. -/
  | current
  deriving DecidableEq, Repr

namespace Layout

/-- The five tables are there. -/
def hasTables : Layout → Bool
  | blank => false
  | _ => true

/-- Entries name a file. -/
def hasFilePaths : Layout → Bool
  | extended => true
  | current => true
  | _ => false

/-- A key occurs once in a version, whatever the file. -/
def keysPerVersion : Layout → Bool
  | old => true
  | extended => true
  | _ => false

/-- The layout once missing tables are made and entries are given a file. -/
def prepared : Layout → Layout
  | blank => current
  | old => extended
  | extended => extended
  | current => current

theorem hasTables_of_hasFilePaths {l : Layout} (paths : l.hasFilePaths = true) :
    l.hasTables = true := by
  cases l <;> first | rfl | cases paths

theorem prepared_of_hasFilePaths {l : Layout} (paths : l.hasFilePaths = true) :
    l.prepared = l := by
  cases l <;> first | rfl | cases paths

theorem prepared_prepared (l : Layout) : l.prepared.prepared = l.prepared := by
  cases l <;> rfl

end Layout

end LocalizationMemory
