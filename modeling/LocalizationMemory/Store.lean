import LocalizationMemory.Adoption
import LocalizationMemory.Connection
import LocalizationMemory.Settings
import LocalizationMemory.Update

/-!
# The store: a handle on an archive

A store is a handle that callers pass around. It connects with the first operation
that needs the archive; if that fails, the next one tries again. Once closed it
stays closed. Operations take the store's lock; a crash while the lock is held
leaves the lock unusable, and the store with it.

## Main definitions

* `StoreState`, `Store` — the states of a handle
* `Store.connect` — connect to the archive of the settings
* `Store.withConnection` — connect if need be, then use the connection
* `Store.perform` — run an action on the archive
* `Store.close` — close the connection for good
* `Store.drop` — give the handle up

## Main results

* `Store.withConnection_closed`, `Store.withConnection_poisoned` — a closed or
  unusable store answers with its fault and changes nothing
-/

namespace LocalizationMemory

/-- Whether a store has a connection. -/
inductive StoreState where
  | notReady
  | ready (connection : Connection)
  | closed
  deriving DecidableEq, Repr

/-- A handle on an archive. -/
structure Store where
  settings : Settings
  state : StoreState := .notReady
  /-- An operation crashed while it held the lock. -/
  poisoned : Bool := false
  deriving DecidableEq, Repr

/-- A result, with the store and the disk it leaves and what was reported. -/
structure StoreReply (α : Type) where
  result : Except Failure α
  store : Store
  disk : Disk
  events : List Event := []

namespace Store

variable {α : Type}

/-- The longest time that a connection can be told to wait. -/
def longestWait : Nat := Nat.pow 2 31 - 1

/-- A reply that reports a fault and leaves all as it is. -/
def refuse (s : Store) (d : Disk) (fault : Fault) : StoreReply α :=
  { result := .error (.fault fault), store := s, disk := d }

/-- There is a connection. No attempt is made to connect. -/
def isReady (s : Store) : Bool := !s.poisoned && s.state matches .ready _

/-- Connect to the archive of the settings. Its directory is made, and so are its
tables. A time to wait that is too long to be told crashes. -/
def connect (s : Store) (now : Millis) (d : Disk) : DiskReply Connection :=
  let path := s.settings.dbPath
  let wait := s.settings.busyTimeoutMs.toNat
  -- A fault of the directories is one of the file system, whatever the database would say.
  match d.createDirectories (Path.steps path).dropLast with
  | (some cause, made) => { result := .error (.fault (.file cause)), disk := made }
  | (none, made) =>
    match Connection.establish path made with
    | (.error cause, d) => { result := .error (.fault (.storeUnavailable path cause)), disk := d }
    | (.ok c, d) =>
      if longestWait < wait then { result := .error .crashUnderLock, disk := c.close d }
      else
        -- From here on the connection is set up, and that was reported.
        let prepared := c.run now Action.prepare d
        match prepared.result with
        | .error (.fault (.database cause)) =>
          { result := .error (.fault (.storeUnavailable path cause)), disk := c.close prepared.disk
            events := [.connectionConfigured wait] }
        | .error failure =>
          { result := .error failure, disk := c.close prepared.disk
            events := [.connectionConfigured wait] }
        | .ok () =>
          { result := .ok prepared.connection, disk := prepared.disk
            events := .connectionConfigured wait :: prepared.events ++ [.connected path] }

/-- Use a connection. A crash poisons the store if it happens under the lock. -/
def useConnection (s : Store) (c : Connection) (use : Connection → Disk → ConnectionReply α)
    (d : Disk) : StoreReply α :=
  let used := use c d
  { result := used.result
    store :=
      { s with
        state := .ready used.connection
        poisoned := used.result matches .error .crashUnderLock }
    disk := used.disk
    events := used.events }

/-- Use the connection, after connecting if there is none yet. -/
def withConnection (s : Store) (now : Millis)
    (use : Connection → Disk → ConnectionReply α) (d : Disk) : StoreReply α :=
  if s.poisoned then s.refuse d .poisoned
  else
    match s.state with
    | .closed => s.refuse d .storeClosed
    | .ready c => s.useConnection c use d
    | .notReady =>
      let r := s.connect now d
      match r.result with
      -- The store stays as it was, so that the next operation connects anew.
      | .error failure =>
        { result := .error failure
          store := { s with poisoned := failure = .crashUnderLock }
          disk := r.disk
          events := r.events }
      -- The store has its connection even if the operation itself fails.
      | .ok c =>
        let used := s.useConnection c use r.disk
        { used with events := r.events ++ used.events }

/-- Run an action on the archive. -/
def perform (s : Store) (now : Millis) (action : Action α) (d : Disk) : StoreReply α :=
  s.withConnection now (·.run now action) d

/-- Close the connection for good. -/
def close (s : Store) (d : Disk) : StoreReply Unit :=
  if s.poisoned then s.refuse d .poisoned
  else
    let closed : Store := { s with state := .closed }
    match s.state with
    | .ready c =>
      { result := .ok (), store := closed, disk := c.close d
        events := [.disconnected s.settings.dbPath] }
    | _ => { result := .ok (), store := closed, disk := d }

/-- Give the handle up. Its connection is closed even if the store is unusable. -/
def drop (s : Store) (d : Disk) : DiskReply Unit :=
  let r := s.close d
  let disk :=
    match r.store.state with
    | .ready c => c.close r.disk
    | _ => r.disk
  { result := .ok (), disk, events := r.events }

/-- The id of a mod, which is made if need be. A blank name is refused without connecting. -/
def ensureMod (s : Store) (now : Millis) (name : String) (remoteId : Option String) (d : Disk) :
    StoreReply RowId :=
  if Text.allBlank name then s.refuse d (.input .blankModName)
  else s.perform now (Action.ensureMod name remoteId) d

/-- Find or store the version of a list of files. Misaligned files are reported
before connecting. -/
def snapshot (s : Store) (now : Millis) (modId : RowId) (files : List SourceFile) (d : Disk) :
    StoreReply Snapshot :=
  let reply := s.perform now (Action.snapshot modId files) d
  { reply with events := misalignments files ++ reply.events }

/-- A file of the newest version of a mod, in the default language. -/
def defaultEntries (s : Store) (now : Millis) (modName path : String) (d : Disk) :
    StoreReply (List ArchivedEntry) :=
  s.perform now (Action.archivedEntries modName path s.settings.defaultLanguage) d

/-- Compare source files with the archive. No files are compared without connecting. -/
def plan (s : Store) (now : Millis) (modName : String) (files : List SourceFile)
    (language : String) (d : Disk) : StoreReply Plan :=
  if files.isEmpty then
    { result := .ok ⟨modName, language, []⟩, store := s, disk := d
      events := [.planned modName language 0 0 0 0] }
  else s.perform now (Action.plan modName files language) d

/-- Archive a merged set. A blank name is refused without connecting. -/
def archiveMerged (s : Store) (now : Millis) (merged : MergedSet) (remoteId : Option String)
    (d : Disk) : StoreReply (RowId × ArchiveReport) :=
  if Text.allBlank merged.modName then s.refuse d (.input .blankModName)
  else s.perform now (Action.archiveMerged merged remoteId) d

/-- Adopt rendering files. A blank name is refused without connecting. -/
def adopt (s : Store) (now : Millis) (modName : String) (remoteId : Option String)
    (files : List SourceFile) (renderings : List RenderingFile) (d : Disk) :
    StoreReply AdoptionReport :=
  if Text.allBlank modName then s.refuse d (.input .blankModName)
  else s.perform now (Action.adopt modName remoteId files renderings) d

/-- Update a mod from its source files. An empty list of files is refused without connecting. -/
def update (s : Store) (now : Millis) (modName : String) (remoteId : Option String)
    (files : List SourceFile) (language : String) (translator : Translator) (d : Disk) :
    StoreReply UpdateOutcome :=
  if files.isEmpty then s.refuse d (.input .noSourceFiles)
  else s.perform now (Action.update modName remoteId files language translator) d

/-- Copy the archive to the file of a path. -/
def exportTo (s : Store) (now : Millis) (path : String) (d : Disk) : StoreReply Unit :=
  s.withConnection now (·.exportTo path) d

/-- Copy the archive in the file of a path here, in place of all there is. -/
def importFrom (s : Store) (now : Millis) (path : String) (d : Disk) : StoreReply Unit :=
  s.withConnection now (·.importFrom now path) d

/-! ### Stores that are closed or unusable -/

theorem withConnection_poisoned {s : Store} (h : s.poisoned = true) (now : Millis)
    (use : Connection → Disk → ConnectionReply α) (d : Disk) :
    s.withConnection now use d = s.refuse d .poisoned := by
  simp [withConnection, h]

theorem withConnection_closed {s : Store} (hp : s.poisoned = false) (hs : s.state = .closed)
    (now : Millis) (use : Connection → Disk → ConnectionReply α) (d : Disk) :
    s.withConnection now use d = s.refuse d .storeClosed := by
  simp [withConnection, hp, hs]

end Store

end LocalizationMemory
