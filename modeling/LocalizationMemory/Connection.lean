import LocalizationMemory.Archive.Action
import LocalizationMemory.Disk.Opening

/-!
# Connections to archive files

A connection is to one file. Actions run on the archive in the file, and what they
leave is the file's new content, seen by every other connection to it. An archive
can be copied as a whole to another file, and back from one. A connection remembers
how its last statement ended, and a copy that stops has nothing else to report.

## Main definitions

* `Connection` — a connection to a file
* `DiskReply`, `ConnectionReply` — a result, what it leaves and what was reported
* `Connection.establish` — connect to the file of a path
* `Connection.run` — run an action
* `Connection.runAt` — run an action on the file of a path
* `Action.prepare` — make the tables of today
* `Connection.exportTo`, `Connection.importFrom` — copy a whole archive
-/

namespace LocalizationMemory

/-- A connection to a file. -/
structure Connection where
  handle : Handle
  /-- How the last statement ended. -/
  verdict : Verdict := .success
  /-- There were tables when the connection last looked. -/
  knowsTables : Bool := true
  /-- The connection has yet to open the log of its file. -/
  logPending : Bool := false
  /-- The queries that the connection keeps. -/
  kept : List Query := []
  deriving DecidableEq, Repr

/-- A result, the disk it leaves and what was reported. -/
structure DiskReply (α : Type) where
  result : Except Failure α
  disk : Disk
  events : List Event := []

/-- A result, the connection and the disk it leaves and what was reported. -/
structure ConnectionReply (α : Type) where
  result : Except Failure α
  connection : Connection
  disk : Disk
  events : List Event := []

/-- Make missing tables and give entries of an older layout a file. Nothing is
written if the tables are those of today, but if that was not noticed the right to
write is needed all the same. -/
def Action.prepare : Action Unit := fun access a =>
  let isReady := a.layout.prepared = a.layout && !access.overlooksTables
  match if isReady then .ok () else access.permission with
  | .ok () => ⟨.ok (), a.prepare, if a.layout = .old then [.filePathsAdded] else [], .ended .success⟩
  | .error cause => ⟨.error (.database cause), a, [], .ended (.failure cause)⟩

namespace Connection

/-- Connect to the file of a path, which has to be an archive, and let its changes be
written ahead. The log is opened at once if there was one. -/
def establish (path : String) (d : Disk) : Except DatabaseFault Connection × Disk :=
  match d.openFile path with
  | .error cause => (.error cause, d)
  | .ok (h, opened) =>
    match opened.writeAhead h with
    -- A file that was made for this stays.
    | .error cause => (.error cause, opened.closeFile h)
    | .ok ready =>
      let shown := opened.seen h
      let c : Connection :=
        { handle := h
          knowsTables := shown.toOption.any (·.archive.layout.hasTables)
          logPending := !(shown.toOption.any (·.writesAhead)) }
      (.ok c, ready)

/-- Connect to the file of a path, for a caller that waits so long for the right to write. -/
def openPath (path : String) (busyTimeoutMs : Nat) (d : Disk) : DiskReply Connection :=
  match establish path d with
  | (.error cause, d) => { result := .error (.database cause), disk := d }
  | (.ok c, d) => { result := .ok c, disk := d, events := [.connectionConfigured busyTimeoutMs] }

/-- End a connection. -/
def close (c : Connection) (d : Disk) : Disk := d.closeFile c.handle

/-- The log of a connection's file is still to be opened, but the file beside which it
should be is gone. -/
def isGone (c : Connection) (d : Disk) : Bool :=
  c.logPending && c.handle.place.any fun place => (d.node? place).isNone

/-- What stands in the way of a change through a connection. -/
def obstacle? (c : Connection) (d : Disk) : Option Obstacle :=
  if c.handle.readOnly then some .readOnly
  else if d.isHeld c.handle then some .held
  else none

variable {α : Type}

/-- A reply that reports a failure and leaves all as it is. -/
def refuse (c : Connection) (d : Disk) (failure : Failure) : ConnectionReply α :=
  { result := .error failure, connection := c, disk := d }

/-- Run an action on a connection to a file that cannot be read. That a table is missing
can be said of what the connection knows, and nothing else. -/
def runBlind (c : Connection) (now : Millis) (action : Action α) (cause : DatabaseFault)
    (d : Disk) : ConnectionReply α :=
  let o := action ⟨now, some .held, true, c.kept⟩ { layout := if c.knowsTables then .current else .blank }
  match o.result, o.trace.verdict with
  | .ok x, none => { result := .ok x, connection := c, disk := d, events := o.events }
  | .error failure, none => c.refuse d failure
  | _, some verdict =>
    let cause :=
      match verdict with
      | .failure (.noSuchTable table) => .noSuchTable table
      | .failure (.noSuchRuleTable table) => .noSuchRuleTable table
      | _ => cause
    { c.refuse d (.database cause) with connection := { c with verdict := .failure cause } }

/-- Run an action on the archive in a file. What it leaves is not kept if the file can
only be read. -/
def run (c : Connection) (now : Millis) (action : Action α) (d : Disk) : ConnectionReply α :=
  match d.seen c.handle with
  | .error cause => c.runBlind now action cause d
  | .ok stored =>
    if c.isGone d then c.runBlind now action .unreadable d
    else
      -- What is frozen is not looked at again.
      let a := if c.handle.frozen && !c.knowsTables then {} else stored.archive
      let o := action ⟨now, c.obstacle? d, !c.knowsTables && a.layout.hasTables, c.kept⟩ a
      -- Who asks for the right to write first and is refused has not looked.
      let looked := !c.handle.frozen && o.trace.verdict.any (· != .failure .locked)
      { result := o.result
        connection :=
          { c with
            verdict := o.trace.verdict.getD c.verdict
            knowsTables := if looked then o.archive.layout.hasTables else c.knowsTables
            logPending := c.logPending && o.trace.verdict.isNone
            kept := (c.kept ++ o.trace.queries).eraseDups }
        disk := if c.handle.readOnly then d else d.setArchive c.handle.file o.archive
        events := o.events }

/-- Run an action on the archive in the file of a path, through a connection of its own that changes
nothing of how the file is written. -/
def runAt (path : String) (now : Millis) (action : Action α) (d : Disk) : DiskReply α :=
  match d.openFile path with
  | .error cause => { result := .error (.database cause), disk := d }
  | .ok (handle, opened) =>
    let r := ({ handle } : Connection).run now action opened
    { result := r.result, disk := r.connection.close r.disk, events := r.events }

/-! ### Whole archives -/

/-- Copy the archive in a file to the file of a path, in place of what that holds.
The directories of the path are made. -/
def exportTo (c : Connection) (path : String) (d : Disk) : ConnectionReply Unit :=
  match d.createDirectories (Path.steps path).dropLast with
  | (some cause, made) => c.refuse made (.fault (.file cause))
  | (none, made) =>
    match made.openFile path with
    | .error cause => c.refuse made (.database cause)
    | .ok (target, opened) =>
      -- What the target holds is replaced, but it has to be an archive with tables first.
      match opened.makeTables target with
      | .error cause => c.refuse (opened.closeFile target) (.database cause)
      | .ok ready =>
        let stopped := .database (.copyStopped Verdict.success.text)
        match c.isGone ready, ready.seen c.handle with
        | false, .ok stored =>
          if target.readOnly then c.refuse (ready.closeFile target) stopped
          else if ready.isHeld target then c.refuse (ready.closeFile target) (.database .locked)
          else
            { result := .ok (), connection := c
              disk := (ready.copyArchive stored target.file).closeFile target }
        | _, _ => c.refuse (ready.closeFile target) stopped

/-- Report that a copy to the file of a connection stopped. The cause is remembered, but
reported is what the connection said before. -/
def stopCopy (c : Connection) (cause : DatabaseFault) (d : Disk) : ConnectionReply α :=
  { result := .error (.database (.copyStopped c.verdict.text))
    connection := { c with verdict := .failure cause }
    disk := d }

/-- Copy the archive in the file of a path to a file, in place of what that holds,
and make the tables of today. -/
def importFrom (c : Connection) (now : Millis) (path : String) (d : Disk) :
    ConnectionReply Unit :=
  if d.pathExists path then
    match d.openFile path with
    | .error cause => c.refuse d (.database cause)
    | .ok (origin, opened) =>
      let left := opened.closeFile origin
      match opened.seen origin, opened.seen c.handle with
      | .error cause, _ => c.stopCopy cause left
      | _, .error cause => c.stopCopy cause left
      | .ok stored, .ok _ =>
        if c.isGone opened then c.stopCopy .unreadable left
        else
          match c.obstacle? opened with
          | some .readOnly => c.stopCopy .readOnly left
          | some .held => c.refuse left (.database .locked)
          | none =>
            -- The copy may be of an older time, so its tables are prepared.
            let copied := { c with knowsTables := stored.archive.layout.hasTables }
            copied.run now Action.prepare
              ((opened.copyArchive stored c.handle.file).closeFile origin)
  else c.refuse d (.fault (.input (.archiveNotFound path)))

end Connection

end LocalizationMemory
