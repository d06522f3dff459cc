import LocalizationMemory.Archive.Schema
import LocalizationMemory.Decimal
import LocalizationMemory.Json.Fault

/-!
# What can go wrong

Every failure is a cause, and its wording is a function of the cause. Causes that
come from the database or from the file system have types of their own; the
faults of the archive wrap them and add its own rules. Each fault has a stable
code that a caller can rely on while the wording changes.

## Main definitions

* `DatabaseFault` — causes from the database, with `DatabaseFault.reason`
* `FileFault` — causes from the file system
* `Fault` — the faults of the archive, with `Fault.code` and `Fault.message?`
* `Failure` — how an operation ends other than with a result
-/

namespace LocalizationMemory

/-- What an option of a database path chooses. -/
inductive PathOption where
  | access
  | cache
  deriving DecidableEq, Repr

/-- The word for what an option chooses. -/
def PathOption.word : PathOption → String
  | access => "access"
  | cache => "cache"

/-- Causes from the database. -/
inductive DatabaseFault where
  /-- Another connection holds the right to write. -/
  | locked
  /-- The connection can only read. -/
  | readOnly
  /-- A row refers to one that is not there. -/
  | danglingReference
  /-- Two entries of one version, file and key. -/
  | duplicateEntry
  /-- Two versions of one hash. -/
  | duplicateHash
  /-- A table is missing. -/
  | noSuchTable (table : TableName)
  /-- The table of a rule is missing. -/
  | noSuchRuleTable (table : TableName)
  /-- A query that is new reads the file of entries that have none, by this name. -/
  | noFilePath (column : String)
  /-- A statement names a column that is not there, although it was once sound or names
  no other. -/
  | noSuchColumn (column : String)
  /-- A statement writes the file of entries that have none. -/
  | noFilePathToWrite
  /-- An insert was refused with this text. -/
  | refused (text : String)
  /-- The path cannot be opened as a database file. -/
  | cannotOpen (path : String)
  /-- The journal of a file cannot be made. -/
  | cannotOpenJournal
  /-- Nothing can be read where the path leads. -/
  | unreadable
  /-- The file holds something else. -/
  | notADatabase
  /-- A copy stopped, and all that is known is what the connection said last. -/
  | copyStopped (last : String)
  /-- The path has a zero byte at this position. -/
  | zeroByte (position : Nat)
  /-- The path names another host than this one. -/
  | foreignHost (host : String)
  /-- An option of the path has no such value. -/
  | noSuchMode (option : PathOption) (value : String)
  /-- An option of the path asks for more than one before it allowed. -/
  | modeNotAllowed (option : PathOption) (value : String)
  /-- The path asks for a file system that is not known. -/
  | noSuchFileSystem (name : String)
  /-- A query that should have a row has none. -/
  | noRows
  /-- A query is not read-only. -/
  | notReadOnly
  /-- A parameter has no such name. -/
  | noSuchParameter (name : String)
  deriving DecidableEq, Repr

namespace DatabaseFault

/-- What the database says of a cause. -/
def reason : DatabaseFault → String
  | locked => "database is locked"
  | readOnly => "attempt to write a readonly database"
  | danglingReference => "FOREIGN KEY constraint failed"
  | duplicateEntry =>
    "UNIQUE constraint failed: source_entries.version_id, source_entries.file_path, " ++
      "source_entries.entry_key"
  | duplicateHash => "UNIQUE constraint failed: source_versions.snapshot_hash"
  | noSuchTable table => s!"no such table: {table.text}"
  | noSuchRuleTable table => s!"no such table: main.{table.text}"
  | noFilePath column => s!"no such column: {column}"
  | noSuchColumn column => s!"no such column: {column}"
  | noFilePathToWrite => "table source_entries has no column named file_path"
  | refused text => text
  | cannotOpen path => s!"unable to open database file: {path}"
  | cannotOpenJournal => "unable to open database file"
  | unreadable => "disk I/O error"
  | notADatabase => "file is not a database"
  | copyStopped last => last
  | zeroByte position => s!"nul byte found in provided data at position: {position}"
  | foreignHost host => s!"invalid uri authority: {host}"
  | noSuchMode option value => s!"no such {option.word} mode: {value}"
  | modeNotAllowed option value => s!"{option.word} mode not allowed: {value}"
  | noSuchFileSystem name => s!"no such vfs: {name}"
  | noRows => "Query returned no rows"
  | notReadOnly => "Query is not read-only"
  | noSuchParameter name => s!"Invalid parameter name: {name}"

/-- The wording of a cause. There is none where it would quote the statement. -/
def message? : DatabaseFault → Option String
  | noFilePath _ => none
  | cause => some cause.reason

end DatabaseFault

/-- Causes from the file system. -/
inductive FileFault where
  | notFound
  | alreadyExists
  | notADirectory
  | isADirectory
  | nameTooLong
  | invalidText
  | zeroByte
  | other (text : String)
  deriving DecidableEq, Repr

/-- The wording of a cause. -/
def FileFault.message : FileFault → String
  | notFound => "No such file or directory (os error 2)"
  | alreadyExists => "File exists (os error 17)"
  | notADirectory => "Not a directory (os error 20)"
  | isADirectory => "Is a directory (os error 21)"
  | nameTooLong => "File name too long (os error 36)"
  | invalidText => "stream did not contain valid UTF-8"
  | zeroByte => "file name contained an unexpected NUL byte"
  | other text => text

/-- Why a setting is refused. -/
inductive SettingFault where
  /-- The variable is not an integer. -/
  | notAnInteger (name : String) (cause : Decimal.Fault)
  | other (text : String)
  deriving DecidableEq, Repr

/-- The wording of a refusal. -/
def SettingFault.message : SettingFault → String
  | notAnInteger name cause => s!"{name} must be an integer: {cause.message}"
  | other text => text

/-- Why an argument is refused. -/
inductive InputFault where
  | blankModName
  | noSourceFiles
  | archiveNotFound (path : String)
  | other (text : String)
  deriving DecidableEq, Repr

/-- The wording of a refusal. -/
def InputFault.message : InputFault → String
  | blankModName => "mod name must not be empty"
  | noSourceFiles => "no source files to update"
  | archiveNotFound path => s!"archive file not found: {path}"
  | other text => text

/-- The faults of the archive. -/
inductive Fault where
  /-- The archive at this path could not be opened; the next operation tries again. -/
  | storeUnavailable (path : String) (cause : DatabaseFault)
  /-- The handle was closed. -/
  | storeClosed
  | database (cause : DatabaseFault)
  | file (cause : FileFault)
  | serialization (cause : Json.Fault)
  | setting (cause : SettingFault)
  | input (cause : InputFault)
  /-- The handle's lock is unusable. -/
  | lock (text : String)
  /-- The translator failed with this text. -/
  | translator (text : String)
  deriving DecidableEq, Repr

namespace Fault

/-- The fault of a handle whose lock an earlier crash left unusable. -/
def poisoned : Fault := .lock "poisoned lock: another task failed inside"

/-- The stable code of a fault. -/
def code : Fault → String
  | storeUnavailable _ _ => "STORE_UNAVAILABLE"
  | storeClosed => "STORE_CLOSED"
  | database _ => "DB_ERROR"
  | file _ => "IO_ERROR"
  | serialization _ => "SERIALIZATION_ERROR"
  | setting _ => "CONFIG_ERROR"
  | input _ => "INVALID_INPUT"
  | lock _ => "LOCK_ERROR"
  | translator _ => "TRANSLATION_ERROR"

/-- The wording of a fault. There is none where it would quote a statement. -/
def message? : Fault → Option String
  | storeUnavailable path cause =>
    cause.message?.map fun text => s!"Archive store unavailable at {path}: {text}"
  | storeClosed => some "Archive store is closed"
  | database cause => cause.message?.map fun text => s!"Database error: {text}"
  | file cause => some s!"IO error: {cause.message}"
  | serialization cause => some s!"Serialization error: {cause.message}"
  | setting cause => some s!"Configuration error: {cause.message}"
  | input cause => some s!"Invalid input: {cause.message}"
  | lock text => some s!"Failed to acquire archive lock: {text}"
  | translator text => some s!"Translation failed: {text}"

/-- The path of a store that could not be opened. -/
def details? : Fault → Option String
  | storeUnavailable path _ => some path
  | _ => none

end Fault

/-- How an operation ends other than with a result. -/
inductive Failure where
  /-- It reports a fault. -/
  | fault (cause : Fault)
  /-- It ends without an answer. -/
  | crash
  /-- It ends without an answer while it uses the archive, under the lock of the handle. -/
  | crashUnderLock
  deriving DecidableEq, Repr

/-- It reports a fault of the database. -/
abbrev Failure.database (cause : DatabaseFault) : Failure := .fault (.database cause)

end LocalizationMemory
