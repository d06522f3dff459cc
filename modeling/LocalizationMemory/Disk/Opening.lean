import LocalizationMemory.Disk
import LocalizationMemory.Location

/-!
# Opening the files of archives

A file is opened by the path of a database, which may ask for a file that is only read,
for one that has to be there, or for memory. What is opened is a handle on a file. Some
changes need a journal beside the file, whose name is longer than the file's. A rival can
hold a right on a file, and so keep others from a change.

## Main definitions

* `Handle` — a file that is open
* `Disk.openFile`, `Disk.closeFile` — open the file that a path asks for, and close it
* `Disk.seen` — the archive that a handle shows
* `Disk.isHeld` — the rival keeps a change from taking place
* `Disk.writeAhead` — let changes be written ahead from now on
* `Disk.makeTables` — make the tables of a file that has none
* `Disk.hold`, `Disk.release` — the rival takes a right, or gives it back
-/

namespace LocalizationMemory

/-- A file that is open. -/
structure Handle where
  file : FileId
  /-- Where the file was when it was opened, unless it is in memory. -/
  place : Option (List String) := none
  /-- The file can only be read. -/
  readOnly : Bool := false
  /-- The file is said never to change, and what is only in its log is not seen. -/
  frozen : Bool := false
  /-- There are no rights on the file, nor can it have a log. -/
  unguarded : Bool := false
  /-- The name of a journal would be longer than names can be. -/
  lacksJournal : Bool := false
  deriving DecidableEq, Repr

namespace Disk

/-! ### Opening and closing -/

/-- Open an archive in memory, or the one that is shared by the name. -/
def openNameless (d : Disk) (l : Location) : Handle × Disk :=
  let (id, made) := d.addFile (.archive { nameless := true })
  let handle (id : FileId) : Handle := { file := id, unguarded := l.isUnguarded }
  if l.shared && l.path != "" then
    match d.sharedNames.find? (·.1 == l.path) with
    | some (_, id) => (handle id, { d with uses := id :: d.uses })
    | none =>
      (handle id,
        { made with sharedNames := (l.path, id) :: made.sharedNames, uses := id :: made.uses })
  else ({ handle id with readOnly := l.mode = .readOnly }, made)

/-- The places on the way of steps, from one that is given from its end to the root,
can be looked at: none is below a file or has too long a name. -/
def isPassable (d : Disk) : List String → List String → Bool
  | _, [] => true
  | back, step :: r =>
    let next := Path.advance back step
    -- A place that is missing can be looked at, and found missing.
    let looked :=
      match d.find next.reverse with
      | .ok _ => true
      | .error fault => fault = .notFound
    looked && d.isPassable next r

/-- The most bytes that the steps to a database can have, so that with the root and the
journal they are no more than 512. -/
def longestSteps : Nat := 489

/-- The number of bytes by which the name of a journal is longer than that of its file. -/
def journalSuffix : Nat := 8

/-- Begin the use of a file. What is frozen has no part in its log. -/
def use (d : Disk) (h : Handle) : Handle × Disk :=
  (h, if h.frozen then d else { d with uses := h.file :: d.uses })

/-- Open the file that a location names, which is made if it may be, in a directory that
has to be there. Faults name the path that asked for it. -/
def openNamed (d : Disk) (path : String) (l : Location) : Except DatabaseFault (Handle × Disk) :=
  let steps := Path.steps l.path
  -- Double dots are taken back without a look at what is there.
  let place := Path.place steps
  let handle (id : FileId) : Handle :=
    { file := id, place := some place
      readOnly := l.mode = .readOnly || l.frozen, frozen := l.frozen
      unguarded := l.isUnguarded
      lacksJournal := Path.longestName < (place.getLast?.getD "").utf8ByteSize + journalSuffix }
  if longestSteps < Path.byteSize place || !d.isPassable [] steps then .error (.cannotOpen path)
  else
    match d.node? place with
    | some (.file id) => .ok (d.use (handle id))
    -- A directory can be opened for reading, but there is nothing to read.
    | some .directory =>
      .error (if l.mode = .readOnly then .unreadable else .cannotOpen path)
    | none =>
      if l.mode = .create && d.node? place.dropLast == some .directory then
        let (id, made) := d.addFile (.archive {})
        .ok ((made.setNode place (.file id)).use (handle id))
      else .error (.cannotOpen path)

/-- Open the file that the path of a database asks for. -/
def openFile (d : Disk) (path : String) : Except DatabaseFault (Handle × Disk) :=
  match Path.zeroByte? path with
  | some position => .error (.zeroByte position)
  | none =>
    match Location.ofPath path with
    | .error cause => .error cause
    | .ok l => if l.isNameless then .ok (d.openNameless l) else d.openNamed path l

/-- End the use of a file. With its last use the log is brought into the file, and a
shared archive in memory is gone. -/
def closeFile (d : Disk) (h : Handle) : Disk :=
  if h.frozen then d
  else
    let uses := d.uses.erase h.file
    let left :=
      { d with uses, sharedNames := d.sharedNames.filter fun s => s.2 != h.file || uses.contains s.2 }
    if uses.contains h.file then left else left.settle h.file

/-! ### Looking at files -/

/-- The archive that a handle shows, with how it is stored. -/
def seen (d : Disk) (h : Handle) : Except DatabaseFault StoredArchive :=
  match d.stored? h.file with
  | none => .error .notADatabase
  | some stored =>
    if h.frozen then .ok { stored with archive := stored.settled }
    else if h.unguarded && stored.writesAhead then .error .cannotOpenJournal
    else .ok stored

/-- The rival keeps a change of a file through a handle from taking place. -/
def isHeld (d : Disk) (h : Handle) : Bool :=
  match d.holding with
  | none => false
  | some holding =>
    holding.file = h.file && !h.unguarded &&
      match holding.right with
      | .writing => true
      | .reading => !((d.stored? h.file).any (·.writesAhead))
      | .nothing => false

/-- A change of a stored archive through a handle needs a journal that cannot be made. What
writes ahead has a log with a shorter name, and memory has none at all. -/
def lacksJournal (h : Handle) (stored : StoredArchive) : Bool :=
  h.lacksJournal && !stored.writesAhead && !stored.nameless

/-! ### Preparing files -/

/-- Why the first change of a stored archive through a handle cannot be made. -/
def changeFault? (d : Disk) (h : Handle) (stored : StoredArchive) : Option DatabaseFault :=
  if h.readOnly then some .readOnly
  else if d.isHeld h then some .locked
  else if lacksJournal h stored then some .cannotOpenJournal
  else none

/-- Let the changes of a file be written ahead from now on, which is a change of the
file itself. -/
def writeAhead (d : Disk) (h : Handle) : Except DatabaseFault Disk :=
  match d.seen h with
  | .error cause => .error cause
  | .ok stored =>
    if stored.nameless || h.frozen || h.unguarded then .ok d
    -- An emptied file looks new, but others are still at it.
    else if stored.emptied then .error .locked
    else if stored.writesAhead then .ok d
    else
      match d.changeFault? h stored with
      | some cause => .error cause
      | none => .ok (d.setContent h.file (.archive { stored with writesAhead := true }))

/-- Make the tables of a file that has none. -/
def makeTables (d : Disk) (h : Handle) : Except DatabaseFault Disk :=
  match d.seen h with
  | .error cause => .error cause
  | .ok stored =>
    if stored.archive.layout.hasTables then .ok d
    else
      match d.changeFault? h stored with
      | some cause => .error cause
      | none => .ok (d.setArchive h.file stored.archive.prepare)

/-- Let a file hold a copy of an archive. It writes ahead if the copied one does, as a
copy has all that the other has; and if it did before, unless it is in memory. -/
def copyArchive (d : Disk) (origin : StoredArchive) (target : FileId) : Disk :=
  match d.stored? target with
  | some t =>
    let ahead := origin.writesAhead || (t.writesAhead && !t.nameless)
    d.setContent target (.archive { t.change origin.archive with writesAhead := ahead })
  | none => d

/-! ### The rival -/

/-- Let the rival give back what it holds. -/
def release (d : Disk) : Disk :=
  match d.holding with
  | none => d
  | some holding =>
    let left := { d with holding := none }
    match holding.right with
    | .nothing => left
    | _ => left.closeFile { file := holding.file }

/-- The right that the rival takes through a handle. -/
def rightOf (h : Handle) : Right :=
  if h.frozen || h.unguarded then .nothing else if h.readOnly then .reading else .writing

/-- Why the rival cannot take the right to write. A file without tables is written to at
once. -/
def holdFault? (d : Disk) (h : Handle) (stored : StoredArchive) : Option DatabaseFault :=
  if h.readOnly then none
  else if d.holding = some ⟨h.file, .writing⟩ && !h.unguarded then some .locked
  else if !stored.archive.layout.hasTables && lacksJournal h stored then some .cannotOpenJournal
  else none

/-- Let the rival take a right on the file of a path, instead of the one that it held:
the right to write, or to read if the file can only be read. -/
def hold (d : Disk) (path : String) : Except DatabaseFault Unit × Disk :=
  match d.openFile path with
  | .error cause => (.error cause, d)
  | .ok (h, opened) =>
    match opened.seen h with
    | .error cause => (.error cause, opened.closeFile h)
    | .ok stored =>
      match opened.holdFault? h stored with
      | some cause => (.error cause, opened.closeFile h)
      | none => (.ok (), { opened.release with holding := some ⟨h.file, rightOf h⟩ })

end Disk

end LocalizationMemory
