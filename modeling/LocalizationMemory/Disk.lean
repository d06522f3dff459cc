import LocalizationMemory.Archive.Basic
import LocalizationMemory.Path

/-!
# The disk

Archives live in files of a tree of directories. A file is known by an id, which
stays the same while connections use it, even after its name is gone; an archive in
memory is a file that never had a name. Changes of an archive that writes ahead are in
a log until the last connection to its file ends. One more connection, the rival, can
hold a right on a file.

## Main definitions

* `StoredArchive` — an archive in a file
* `Holding` — what the rival holds
* `Disk` — directories, files and their contents
* `Disk.find` — what a path names
* `Disk.createDirectories` — make a directory with those above it
* `Disk.archive?`, `Disk.setArchive` — the archive in a file
* `Disk.settle` — bring what is only in the log into the file

## Main results

* `Disk.archive?_setArchive` — a file has the archive it was given, others keep theirs
* `Disk.archive?_settle` — settling changes no archive
-/

namespace LocalizationMemory

/-- The id of a file. -/
abbrev FileId := Nat

/-- An archive in a file. -/
structure StoredArchive where
  archive : Archive := {}
  /-- What the file itself has, without what is only in the log. -/
  settled : Archive := archive
  /-- Changes are written to a log of their own first, so that another writer keeps no one
  from connecting. -/
  writesAhead : Bool := false
  /-- The file has no name that others could use. -/
  nameless : Bool := false
  /-- The file itself was emptied. What it had is in the log. -/
  emptied : Bool := false
  deriving DecidableEq, Repr

namespace StoredArchive

/-- Let a change leave another archive. It goes to the log if there is one. -/
def change (s : StoredArchive) (a : Archive) : StoredArchive :=
  { s with archive := a, settled := if s.writesAhead && !s.nameless then s.settled else a }

/-- Bring what is only in the log into the file. -/
def settle (s : StoredArchive) : StoredArchive :=
  { s with settled := s.archive, emptied := false }

end StoredArchive

/-- What a file holds. -/
inductive Content where
  | archive (stored : StoredArchive)
  /-- Something that is no archive. -/
  | other
  deriving DecidableEq, Repr

/-- What bytes are that were not written as an archive. None, or a single one, are an
archive without tables. -/
def Content.ofBytes (bytes : List UInt8) : Content :=
  if bytes.length ≤ 1 then .archive {} else .other

/-- The right on a file that the rival holds. -/
inductive Right where
  | writing
  /-- Others may write to a log, but not to the file. -/
  | reading
  /-- No right at all: the file is taken as it is. -/
  | nothing
  deriving DecidableEq, Repr

/-- What the rival holds. -/
structure Holding where
  file : FileId
  right : Right
  deriving DecidableEq, Repr

/-- What a name stands for. -/
inductive Node where
  | directory
  | file (id : FileId)
  deriving DecidableEq, Repr

/-- Directories, files and their contents. -/
structure Disk where
  /-- What stands at a place below the root, which is given from the root down. -/
  nodes : List (List String × Node) := []
  contents : List (FileId × Content) := []
  nextFile : FileId := 0
  holding : Option Holding := none
  /-- The archives in memory that are shared by a name. -/
  sharedNames : List (String × FileId) := []
  /-- The files of the connections, one for each connection. -/
  uses : List FileId := []
  deriving DecidableEq, Repr

namespace Disk

/-- What stands at a place. The root is a directory. -/
def node? (d : Disk) (place : List String) : Option Node :=
  if place.isEmpty then some .directory else (d.nodes.find? (·.1 == place)).map (·.2)

/-- Take the parts of a path from a place, given from its end to the root, through
directories. -/
def walk (d : Disk) : List String → Node → List String → Except FileFault Node
  | _, node, [] => .ok node
  | back, .directory, piece :: r =>
    if Path.isLongName piece then .error .nameTooLong
    else
      let next := Path.advance back piece
      match d.node? next.reverse with
      | some node => d.walk next node r
      | none => .error .notFound
  -- After a file there is nothing to go on to, not even a part that stays.
  | _, .file _, _ :: _ => .error .notADirectory

/-- What the parts of a path lead to from the root. -/
def find (d : Disk) (pieces : List String) : Except FileFault Node := d.walk [] .directory pieces

/-- Steps from the root lead to a directory. -/
def isDirectory (d : Disk) (steps : List String) : Bool := d.find steps matches .ok .directory

/-- The path names a directory or a file. -/
def pathExists (d : Disk) (path : String) : Bool :=
  let pieces := Path.pieces path
  if (Path.zeroByte? path).isSome || path.isEmpty || Path.isLong pieces then false
  else d.find pieces matches .ok _

/-- Let a node stand at a place. -/
def setNode (d : Disk) (place : List String) (node : Node) : Disk :=
  { d with nodes := (place, node) :: d.nodes.filter (·.1 != place) }

/-- Make one directory. -/
def createDirectory (d : Disk) (steps : List String) : Except FileFault Disk :=
  match steps.getLast? with
  | none => .error .alreadyExists
  | some last =>
    match d.find steps.dropLast with
    | .error fault => .error fault
    | .ok (.file _) => .error .notADirectory
    | .ok .directory =>
      let place := Path.place steps
      if Path.isLongName last then .error .nameTooLong
      else if last = ".." || (d.node? place).isSome then .error .alreadyExists
      else .ok (d.setNode place .directory)

/-- Make the directory that steps, given from the last to the first, lead to, and
those above it. What was made stays when a later one cannot be made. -/
def createAll : List String → Disk → Option FileFault × Disk
  | [], d => (none, d)
  | s :: above, d =>
    let steps := (s :: above).reverse
    match d.createDirectory steps with
    | .ok made => (none, made)
    -- Only a missing directory above sends the search upwards.
    | .error .notFound =>
      match createAll above d with
      | (some fault, d) => (some fault, d)
      | (none, d) =>
        match d.createDirectory steps with
        | .ok made => (none, made)
        | .error fault => (if d.isDirectory steps then none else some fault, d)
    -- A directory that is there already is as good as one that was made.
    | .error fault => (if d.isDirectory steps then none else some fault, d)

/-- Make the directory of a path, and those above it. -/
def createDirectories (d : Disk) (steps : List String) : Option FileFault × Disk :=
  if steps.any fun s => (Path.zeroByte? s).isSome then (some .zeroByte, d)
  else if Path.isLong steps then (some .nameTooLong, d)
  else createAll steps.reverse d

/-- Make a file without a name. -/
def addFile (d : Disk) (content : Content) : FileId × Disk :=
  let id := d.nextFile
  (id, { d with contents := (id, content) :: d.contents, nextFile := id + 1 })

/-- What a file holds. -/
def content? (d : Disk) (id : FileId) : Option Content := (d.contents.find? (·.1 == id)).map (·.2)

/-- Let a file hold something else. -/
def setContent (d : Disk) (id : FileId) (content : Content) : Disk :=
  { d with contents := (id, content) :: d.contents.filter (·.1 != id) }

/-- The archive that a file holds, with how it is stored. -/
def stored? (d : Disk) (id : FileId) : Option StoredArchive :=
  match d.content? id with
  | some (.archive stored) => some stored
  | _ => none

/-- The archive that a file holds. -/
def archive? (d : Disk) (id : FileId) : Option Archive := (d.stored? id).map (·.archive)

/-- Let a file hold an archive, stored as what was there before. -/
def setArchive (d : Disk) (id : FileId) (a : Archive) : Disk :=
  d.setContent id (.archive (((d.stored? id).getD {}).change a))

/-- Bring what is only in the log of a file into the file. -/
def settle (d : Disk) (id : FileId) : Disk :=
  match d.stored? id with
  | some stored => d.setContent id (.archive stored.settle)
  | none => d

/-- Let a new file stand at a place. -/
def putFile (d : Disk) (place : List String) (content : Content) : Disk :=
  let (id, made) := d.addFile content
  made.setNode place (.file id)

/-- What becomes of an archive whose file is overwritten with a content while connections
use it. If the whole archive is in the log nothing is lost. If only a part is there,
the connections go on with what they know, as with a file of their own. -/
def overwrite (d : Disk) (place : List String) (id : FileId) (stored : StoredArchive)
    (content : Content) : Disk :=
  if stored.writesAhead && stored.settled.layout.hasTables then d.putFile place content
  else if stored.writesAhead && stored.archive.layout.hasTables then
    d.setContent id (.archive { stored with emptied := content != .other })
  else d.setContent id content

/-- Write bytes to the file of a path, in place of what it held. -/
def writeBytes (d : Disk) (path : String) (bytes : List UInt8) : Disk :=
  let place := Path.place (Path.steps path)
  let content := Content.ofBytes bytes
  match d.node? place with
  | some (.file id) =>
    match d.stored? id with
    | some stored =>
      if d.uses.contains id then d.overwrite place id stored content else d.setContent id content
    | none => d.setContent id content
  | _ => d.putFile place content

/-- Write a file with an archive that writes ahead, in place of what stood at its path. -/
def writeArchive (d : Disk) (path : String) (a : Archive) : Disk :=
  d.putFile (Path.place (Path.steps path)) (.archive { archive := a, writesAhead := true })

/-- Remove what stands at a path, and all below it. -/
def remove (d : Disk) (path : String) : Disk :=
  let place := Path.place (Path.steps path)
  { d with nodes := d.nodes.filter fun n => !place.isPrefixOf n.1 }

theorem find?_filter_ne {β : Type} (l : List (FileId × β)) {id other : FileId}
    (h : other ≠ id) :
    (l.filter (·.1 != id)).find? (·.1 == other) = l.find? (·.1 == other) := by
  induction l with
  | nil => rfl
  | cons p r ih =>
    by_cases hp : p.1 = id
    · have hne : (p.1 == other) = false := by simpa [hp] using Ne.symm h
      rw [List.filter_cons_of_neg (by simp [hp]), ih, List.find?_cons, hne]
    · rw [List.filter_cons_of_pos (by simp [hp]), List.find?_cons, List.find?_cons, ih]

/-- A file has the archive it was given, and other files keep theirs. -/
theorem archive?_setArchive (d : Disk) (id : FileId) (a : Archive) (other : FileId) :
    (d.setArchive id a).archive? other = if other = id then some a else d.archive? other := by
  by_cases h : other = id
  · subst h
    simp [archive?, stored?, setArchive, content?, setContent, StoredArchive.change]
  · have hne : (id == other) = false := by simpa using Ne.symm h
    simp [archive?, stored?, setArchive, content?, setContent, hne, find?_filter_ne _ h, h]

/-- Settling changes no archive. -/
theorem archive?_settle (d : Disk) (id other : FileId) :
    (d.settle id).archive? other = d.archive? other := by
  unfold settle
  split
  · next stored hs =>
    by_cases h : other = id
    · subst h
      simp [archive?, hs, setContent, StoredArchive.settle]
      simp [stored?, content?]
    · have hne : (id == other) = false := by simpa using Ne.symm h
      simp [archive?, stored?, setContent, content?, hne, find?_filter_ne _ h]
  · rfl

end Disk

end LocalizationMemory
