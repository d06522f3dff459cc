import LocalizationMemory.Archive.Race
import LocalizationMemory.Archive.Rival
import LocalizationMemory.Store

/-!
# Stores with a rival

The operations of a store that look up before they write, where another connection
writes in between. The rival has a connection of its own, to a file as it is before the
operation begins. What it has written is not to be seen by the look-up, because it commits
only when the operation waits for the right to write.

## Main definitions

* `Store.amid` — a call of two steps with a rival between them
* `Store.ensureModAmid`, `Store.snapshotAmid` — the operations with a rival
-/

namespace LocalizationMemory.Store

variable {α : Type}

/-- A call of two steps with a rival between them, where `looked` is what the look-up leaves. The
write follows if it found nothing. A rival that cannot write keeps the call from being made. -/
def amid (s : Store) (now : Millis) (rival : Disk → DiskReply Unit)
    (looked : StoreReply (Option α)) (write : Action α) (d : Disk) : StoreReply α :=
  match (rival d).result with
  | .error failure => { result := .error failure, store := s, disk := (rival d).disk }
  | .ok () =>
    let met := (rival looked.disk).disk
    match looked.result with
    | .error failure =>
      { result := .error failure, store := looked.store, disk := met, events := looked.events }
    | .ok (some x) =>
      { result := .ok x, store := looked.store, disk := met, events := looked.events }
    | .ok none =>
      let written := looked.store.perform now write met
      { written with events := looked.events ++ written.events }

/-- The id of a mod that a rival makes in the file of a path after it was looked up. -/
def ensureModAmid (s : Store) (now : Millis) (path name : String) (remoteId : Option String)
    (d : Disk) : StoreReply RowId :=
  let call := Attempt.ensureMod name remoteId
  let looked :=
    if Text.allBlank name then s.refuse d (.input .blankModName) else s.perform now call.lookUp d
  s.amid now (Connection.runAt path now (Action.rivalMod name)) looked call.write d

/-- The version of a list of files that a rival stores in the file of a path after it was looked
up. -/
def snapshotAmid (s : Store) (now : Millis) (path : String) (modId : RowId)
    (files : List SourceFile) (d : Disk) : StoreReply Snapshot :=
  let call := Attempt.snapshot modId files
  let looked := s.perform now call.lookUp d
  s.amid now (Connection.runAt path now (Action.rivalVersion modId (snapshotHash files)))
    { looked with events := misalignments files ++ looked.events } call.write d

end LocalizationMemory.Store
