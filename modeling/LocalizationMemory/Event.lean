import LocalizationMemory.Key.Lookup
import LocalizationMemory.Rendering
import LocalizationMemory.Fingerprint

/-!
# What an operation reports on its way

Operations report what they do as events. An event is data; the line that a log
shows for it has a level, a message and named fields.

## Main definitions

* `Event` — the things reported
* `Event.level`, `Event.message`, `Event.fields` — the line in a log
* `LogField` — a field is a number or a text
-/

namespace LocalizationMemory

/-- The levels of a log. -/
inductive LogLevel where
  | debug
  | info
  | warn
  deriving DecidableEq, Repr

/-- The name of a level. -/
def LogLevel.name : LogLevel → String
  | debug => "DEBUG"
  | info => "INFO"
  | warn => "WARN"

/-- The value of a field of a log line. -/
inductive LogField where
  | number (value : Int)
  | text (value : String)
  deriving DecidableEq, Repr

/-- The things reported. -/
inductive Event where
  /-- A connection was set up, waiting so long for the right to write. -/
  | connectionConfigured (busyTimeoutMs : Nat)
  /-- The entries of an older archive were given a file. -/
  | filePathsAdded
  | connected (path : String)
  | disconnected (path : String)
  /-- A mod was made, or found to have been made meanwhile. -/
  | modReady (modId : Int) (name : String)
  | versionExists (hash : String) (versionId : Int)
  | versionCreated (versionId modId : Int) (hash : String)
  | entriesArchived (count : Nat) (versionId : Int)
  /-- A source file has more keys than texts or the reverse. -/
  | misaligned (filename : String) (keys texts : Nat)
  /-- A key was found by a strategy after the first. -/
  | foundByFallback (key file : String) (strategy : Strategy)
  /-- A key was not found. -/
  | keyNotFound (versionId : Int) (file key : String)
  /-- Results name a file that is not among the source files. -/
  | unknownFile (filename : String)
  /-- Results for a file are more or fewer than its keys. -/
  | countDiffers (filename : String) (keys renderings : Nat)
  /-- Results were left out because their keys were not found. -/
  | renderingsDropped (skipped : Nat) (versionId : Int) (language : String)
  | renderingsArchived (count : Nat) (language : String)
  /-- Files were compared with the archive. -/
  | planned (modName language : String) (total new changed unchanged : Nat)
  /-- The translator is asked. -/
  | translating (language : String) (requests : List TranslatorRequest)
  /-- An update is complete. -/
  | updated (versionId : Int) (description : String)
  /-- No key of the rendering files is known. -/
  | nothingMatched (modName : String)
  /-- Rendering files were taken over. -/
  | adopted (modName : String) (matched languages : Nat)
  deriving DecidableEq, Repr

namespace Event

/-- How important an event is. -/
def level : Event → LogLevel
  | connectionConfigured _ => .debug
  | modReady _ _ => .debug
  | foundByFallback _ _ _ => .debug
  | misaligned _ _ _ => .warn
  | keyNotFound _ _ _ => .warn
  | unknownFile _ => .warn
  | countDiffers _ _ _ => .warn
  | renderingsDropped _ _ _ => .warn
  | _ => .info

/-- The message of an event. -/
def message : Event → String
  | connectionConfigured _ => "SQLite pragmas configured (WAL)"
  | filePathsAdded => "Migrated legacy source_entries: added file_path column"
  | connected _ => "archive connected"
  | disconnected _ => "archive connection closed"
  | modReady _ _ => "mod entry ready"
  | versionExists _ _ => "source version already exists"
  | versionCreated _ _ _ => "created source version"
  | entriesArchived _ _ => "archived source entries"
  | misaligned _ _ _ => "key_map and texts differ in length; extra items are ignored"
  | foundByFallback _ _ _ => "key resolved through fallback"
  | keyNotFound _ _ _ => "source entry not found for key"
  | unknownFile _ => "translation results for unknown file"
  | countDiffers _ _ _ => "translation count differs from key count"
  | renderingsDropped _ _ _ => "translations dropped: source entries not found"
  | renderingsArchived _ _ => "archived translations"
  | planned _ _ _ _ _ _ => "diff planned"
  | translating _ _ => "translating incrementally"
  | updated _ description => description
  | nothingMatched _ => "no matching keys found in translation files"
  | adopted _ _ _ => "imported existing translations"

/-- The fields of an event. -/
def fields : Event → List (String × LogField)
  | connectionConfigured ms => [("busy_timeout_ms", .number ms)]
  | filePathsAdded => []
  | connected path => [("path", .text path)]
  | disconnected path => [("path", .text path)]
  | modReady modId name => [("mod_id", .number modId), ("name", .text name)]
  | versionExists hash versionId =>
    [("hash", .text (shortHash hash)), ("version_id", .number versionId)]
  | versionCreated versionId modId hash =>
    [("version_id", .number versionId), ("mod_id", .number modId), ("hash", .text (shortHash hash))]
  | entriesArchived count versionId =>
    [("count", .number count), ("version_id", .number versionId)]
  | misaligned filename keys texts =>
    [("filename", .text filename), ("keys", .number keys), ("texts", .number texts)]
  | foundByFallback key file strategy =>
    [("key", .text key), ("file_path", .text file), ("strategy", .text strategy.name)]
  | keyNotFound versionId file key =>
    [("version_id", .number versionId), ("file_path", .text file), ("key", .text key)]
  | unknownFile filename => [("filename", .text filename)]
  | countDiffers filename keys renderings =>
    [("filename", .text filename), ("keys", .number keys), ("translations", .number renderings)]
  | renderingsDropped skipped versionId language =>
    [("skipped", .number skipped), ("version_id", .number versionId), ("language", .text language)]
  | renderingsArchived count language =>
    [("count", .number count), ("language", .text language)]
  | planned modName language total new changed unchanged =>
    [("mod_name", .text modName), ("language", .text language), ("total", .number total),
     ("new", .number new), ("changed", .number changed), ("unchanged", .number unchanged)]
  | translating _ requests =>
    [("files", .number requests.length),
     ("items", .number (requests.flatMap (·.texts)).length)]
  | updated versionId _ => [("version_id", .number versionId)]
  | nothingMatched modName => [("mod_name", .text modName)]
  | adopted modName matched languages =>
    [("mod_name", .text modName), ("matched", .number matched), ("languages", .number languages)]

end Event

end LocalizationMemory
