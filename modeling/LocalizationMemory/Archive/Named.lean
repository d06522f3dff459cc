import LocalizationMemory.Archive.Mods
import LocalizationMemory.Archive.Versions

/-!
# The versions of a mod by its name

Callers name a mod; its versions are filed under its id. A name that no mod has stands
for a mod without versions.

## Main definitions

* `Action.latestVersionNamed` — the newest version of a mod
* `Action.versionSummariesNamed` — what the versions of a mod hold
-/

namespace LocalizationMemory.Action

/-- The newest version of a mod, if there are the mod and a version. -/
def latestVersionNamed (modName : String) : Action (Option VersionRow) := do
  match ← modNamed modName with
  | none => return none
  | some m => latestVersion m.id

/-- What the versions of a mod hold, the newest first. -/
def versionSummariesNamed (modName : String) : Action (List VersionSummary) := do
  match ← modNamed modName with
  | none => return []
  | some m => versionSummaries m.id

end LocalizationMemory.Action
