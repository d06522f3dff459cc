import LocalizationMemory.Archive.Basic
import LocalizationMemory.Json.Shape
import LocalizationMemory.Settings
import LocalizationMemory.Rendering

/-!
# The records that are read from JSON

Source files, renderings, mods, versions and settings are exchanged as JSON
records. A line number, the text of an update and every setting may be left out; the
rendering of an archived entry may be left out of an object.

## Main definitions

* `Json.sourceFile`, `Json.correction`, `Json.archivedEntry`,
  `Json.renderingFile`, `Json.modRow`, `Json.versionRow`, `Json.settings` — the readers
* `Settings.ofJson` — settings from the bytes of a file
-/

namespace LocalizationMemory

namespace Json

/-- A plain string. -/
def string : Reader String := text "a string"

/-- The header of a key. -/
def keyInfo : Reader KeyInfo :=
  (record "KeyInfo" <|
    .cons { name := "key_part", reader := string } <|
    .cons { name := "line_num", reader := optional word32, absence := .allowed none } .nil).map
    fun (keyPart, lineNum, ()) => { keyPart, lineNum }

/-- A source file. -/
def sourceFile : Reader SourceFile :=
  (record "SourceFile" <|
    .cons { name := "filename", reader := string } <|
    .cons { name := "key_map", reader := list keyInfo } <|
    .cons { name := "texts_to_translate", reader := list string } .nil).map
    fun (filename, keys, texts, ()) => { filename, keys, texts }

/-- A rendering given by hand. -/
def correction : Reader Correction :=
  (record "TranslationUpdate" <|
    .cons { name := "key", reader := string } <|
    .cons { name := "translation", reader := string, absence := .allowed "" } .nil).map
    fun (key, rendering, ()) => { key, rendering }

/-- A source text with its rendering. -/
def archivedEntry : Reader ArchivedEntry :=
  (record "ArchivedEntry" <|
    .cons { name := "key", reader := string } <|
    .cons { name := "original", reader := string } <|
    .cons
      { name := "translation", reader := optional string, absence := .allowedByName none } .nil).map
    fun (key, source, rendering, ()) => { key, source, rendering }

/-- The renderings of one language. -/
def renderingFile : Reader RenderingFile :=
  (record "TranslationFile" <|
    .cons { name := "language", reader := string } <|
    .cons { name := "entries", reader := list (pair string string) } .nil).map
    fun (language, entries, ()) => { language, entries }

/-- A mod. -/
def modRow : Reader ModRow :=
  (record "ModRecord" <|
    .cons { name := "mod_id", reader := signed64 } <|
    .cons { name := "name", reader := string } <|
    .cons { name := "last_updated", reader := signed64 } .nil).map
    fun (id, name, lastUpdated, ()) => { id, name, lastUpdated }

/-- A version. -/
def versionRow : Reader VersionRow :=
  (record "VersionRecord" <|
    .cons { name := "version_id", reader := signed64 } <|
    .cons { name := "mod_id", reader := signed64 } <|
    .cons { name := "snapshot_hash", reader := string } <|
    .cons { name := "created_at", reader := signed64 } .nil).map
    fun (id, modId, hash, createdAt, ()) => { id, modId, hash, createdAt }

/-- Settings. -/
def settings : Reader Settings :=
  let defaults : Settings := {}
  (record "ArchiveConfig" <|
    .cons
      { name := "db_path", reader := text "path string", absence := .allowed defaults.dbPath } <|
    .cons
      { name := "busy_timeout_ms", reader := word64, absence := .allowed defaults.busyTimeoutMs } <|
    .cons
      { name := "default_language", reader := string
        absence := .allowed defaults.defaultLanguage } .nil).map
    fun (dbPath, busyTimeoutMs, defaultLanguage, ()) => { dbPath, busyTimeoutMs, defaultLanguage }

end Json

/-- Settings from the bytes of a file. -/
def Settings.ofJson (bytes : List UInt8) : Except Fault Settings :=
  match String.fromUTF8? ⟨bytes.toArray⟩ with
  | none => .error (.file .invalidText)
  | some content => (Json.read Json.settings content).mapError .serialization

end LocalizationMemory
