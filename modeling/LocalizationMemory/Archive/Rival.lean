import LocalizationMemory.Archive.Mods
import LocalizationMemory.Archive.Versions

/-!
# What a rival writes

An operation that finds nothing looks again when it has the right to write, because
another connection may have written in between. What such a rival writes is a mod or a
version without entries, by one statement, and nothing if there is one already.

## Main definitions

* `Action.intrude` — change tables by one statement, at the time that is given
* `Action.rivalMod`, `Action.rivalVersion` — what a rival writes
-/

namespace LocalizationMemory.Action

/-- Change tables by one statement, of which `table` is the first that has to be there, at the time
that is given. -/
def intrude (table : TableName) (f : Millis → Archive → Except DatabaseFault Archive) :
    Action Unit := fun access =>
  alter (fun a => if a.layout.hasTables then .ok () else .error (.noSuchTable table))
    (fun a => (f access.now a).map ((), ·)) access

/-- A rival makes the mod of a name, unless there is one. -/
def rivalMod (name : String) : Action Unit :=
  intrude .mods fun now a => if (a.mod? name).isSome then .ok a else a.insertMod name now

/-- A rival stores a version of a hash, without an entry, unless there is one. -/
def rivalVersion (modId : RowId) (hash : String) : Action Unit :=
  intrude .sourceVersions fun now a =>
    if (a.versionByHash? hash).isSome then .ok a else a.insertVersion modId hash now

end LocalizationMemory.Action
