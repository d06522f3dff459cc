import LocalizationMemory.Fault
import LocalizationMemory.Text.Blank

/-!
# Settings of an archive

An archive has three settings: the path of its database file, how long a write
waits for the right to write, and the language that is read where none is named.
Each has a default, and each can be set by a variable, where a blank value counts
as none.

## Main definitions

* `Settings` — the settings, with their defaults
* `Settings.ofVariables` — settings from the variables of an environment
-/

namespace LocalizationMemory

/-- The settings of an archive. -/
structure Settings where
  dbPath : String := "mods_cache.sqlite"
  busyTimeoutMs : UInt64 := 5000
  defaultLanguage : String := "zh-CN"
  deriving DecidableEq, Repr

namespace Settings

/-- The variable for the path of the database file. -/
def pathVariable : String := "LOC_ARCHIVE_DB_PATH"

/-- The variable for the time a write waits. -/
def timeoutVariable : String := "LOC_ARCHIVE_BUSY_TIMEOUT_MS"

/-- The variable for the language read by default. -/
def languageVariable : String := "LOC_ARCHIVE_DEFAULT_LANGUAGE"

/-- A value that is not blank. -/
def notBlank (value : Option String) : Option String := value.filter (!Text.allBlank ·)

/-- The time a write waits, from the text of a variable. -/
def readTimeout (text : String) : Except Fault UInt64 :=
  (Decimal.parseWord (Text.trim text)).mapError fun cause =>
    .setting (.notAnInteger timeoutVariable cause)

/-- The settings that variables give. A path is taken as it is; a timeout and a
language are trimmed. -/
def ofVariables (value? : String → Option String) : Except Fault Settings := do
  let defaults : Settings := {}
  -- The timeout is the one setting that can be refused.
  let busyTimeoutMs ←
    match notBlank (value? timeoutVariable) with
    | none => pure defaults.busyTimeoutMs
    | some text => readTimeout text
  return {
    dbPath := (notBlank (value? pathVariable)).getD defaults.dbPath
    busyTimeoutMs
    defaultLanguage :=
      ((notBlank (value? languageVariable)).map Text.trim).getD defaults.defaultLanguage }

end Settings

end LocalizationMemory
