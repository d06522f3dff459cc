import LocalizationMemory.Archive.Action
import LocalizationMemory.Text.Blank

/-!
# Mods and their aliases

A mod is known by its name. An alias is the id of a mod in another system; it is
recorded only by the call that makes the mod, serves to look a mod up and decides
nothing.

## Main definitions

* `Archive.mod?`, `Archive.modByRemoteId?` — look a mod up
* `Archive.addMod` — make a mod that a look-up did not find
* `Action.ensureMod` — the id of a mod, which is made if need be
* `Action.ensureNamedMod` — the same for names that are not blank
-/

namespace LocalizationMemory

namespace Archive

/-- The mod of a name. -/
def mod? (a : Archive) (name : String) : Option ModRow := a.mods.rows.find? (·.name == name)

/-- The mod with an id. -/
def modWithId? (a : Archive) (id : RowId) : Option ModRow := a.mods.rows.find? (·.id == id)

/-- The mod that an alias stands for. -/
def modByRemoteId? (a : Archive) (remoteId : String) : Option ModRow :=
  (a.aliases.rows.find? (·.remoteId == remoteId)).bind fun l => a.modWithId? l.modId

/-- Insert a mod, unless there is one of the name. -/
def insertMod (a : Archive) (name : String) (now : Millis) : Except DatabaseFault Archive := do
  let a ← a.accepting .mods
  return { a with mods := a.mods.addUnless (·.name == name) fun id => ⟨id, name, now⟩ }

/-- Insert an alias, unless it is taken. -/
def insertAlias (a : Archive) (modId : RowId) (remoteId : String) :
    Except DatabaseFault Archive := do
  let a ← a.accepting .modIdentities
  return { a with
    aliases := a.aliases.addUnless (·.remoteId == remoteId) fun id => ⟨id, modId, remoteId⟩ }

/-- Make a mod, with an alias unless that is blank. Another connection may have
made the mod since it was looked up; then its id is the one wanted. -/
def addMod (a : Archive) (name : String) (remoteId : Option String) (now : Millis) :
    Except DatabaseFault (RowId × Archive) := do
  let a ← a.insertMod name now
  -- The insert may have been ignored, so the id is looked up by the name.
  match a.mod? name with
  | none => throw .noRows
  | some m =>
    match remoteId.filter (!Text.allBlank ·) with
    | none => return (m.id, a)
    | some remoteId => return (m.id, ← a.insertAlias m.id remoteId)

end Archive

namespace Action

/-- The mod of a name. -/
def modNamed (name : String) : Action (Option ModRow) := read .mods (·.mod? name)

/-- The mod that an alias stands for. -/
def modWithRemoteId (remoteId : String) : Action (Option ModRow) :=
  read .modIdentities (·.modByRemoteId? remoteId)

/-- Make a mod that a look-up did not find. -/
def commitMod (name : String) (remoteId : Option String) : Action RowId := do
  let id ← write (·.change .mods fun now a => a.addMod name remoteId now)
  report (.modReady id name)
  return id

/-- The id of a mod, which is made if there is none of the name. -/
def ensureMod (name : String) (remoteId : Option String) : Action RowId := do
  match ← modNamed name with
  | some m => return m.id
  | none => commitMod name remoteId

/-- The id of a mod, which is made if there is none of the name. A blank name is refused. -/
def ensureNamedMod (name : String) (remoteId : Option String) : Action RowId :=
  if Text.allBlank name then failWith (.input .blankModName) else ensureMod name remoteId

end Action

end LocalizationMemory
