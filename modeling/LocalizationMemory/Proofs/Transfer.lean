import LocalizationMemory.Proofs.Copying
import LocalizationMemory.Proofs.Later
import LocalizationMemory.Proofs.Requests
import LocalizationMemory.Proofs.Update

/-!
# Archives are transferred as a whole

An export leaves the archive of its store in the file of a path, and an import takes what
the file of a path holds, in place of all that there was. The two meet at the path: after
both the one store has the archive of the other, with its rows, its counters of ids and
its rules, and answers what is asked of it as the other does. An export leaves its own
store as it is, and an import that finds no file or no database leaves all as it is.

A path can ask for memory instead of a file; from there nothing can be imported.

## Main definitions

* `Disk.CanTake`, `Disk.CanGive` — an archive can be copied to a path, and from one
* `Connection.CanTake` — the archive of a connection can be exchanged
* `Store.Transfers` — the replies to an export and to the import after it

## Main results

* `Connection.exportTo_cases`, `Connection.exportTo_eq_ok` — what an export leaves, and when
  it succeeds
* `Connection.exportTo_serves` — after an export its archive is served as before
* `Connection.importFrom_serves`, `Connection.importFrom_eq_ok` — what an import leaves, and
  when it succeeds
* `Store.import_of_export` — an archive is transferred as a whole
* `Store.answers_differ_after_transfer` — what the answers depend on besides
-/

namespace LocalizationMemory

/-- An archive can be copied to a path: its directories can be made, it can be opened, and
what it holds then is an archive that can be changed. -/
def Disk.CanTake (d : Disk) (path : String) : Prop :=
  ∃ made target opened stored, d.createDirectories (Path.steps path).dropLast = (none, made) ∧
    made.openFile path = .ok (target, opened) ∧ opened.seen target = .ok stored ∧
      opened.changeFault? target stored = none

/-- An archive can be copied from a path: it is there, can be opened, and shows one. -/
def Disk.CanGive (d : Disk) (path : String) : Prop :=
  d.pathExists path = true ∧ ∃ origin opened stored, d.openFile path = .ok (origin, opened) ∧
    opened.seen origin = .ok stored

/-- The archive of a connection can be exchanged. -/
structure Connection.CanTake (c : Connection) (d : Disk) : Prop where
  shown : ∃ stored, d.seen c.handle = .ok stored
  there : c.isGone d = false
  free : c.obstacle? d = none
  guarded : c.handle.unguarded = false

namespace Connection

variable {c : Connection} {d d' : Disk} {path : String} {l : Location} {stored : StoredArchive}
  {a : Archive} {now : Millis}

/-- A file is there as long as what stands somewhere stays there. -/
theorem isGone_of_node? (there : c.isGone d = false)
    (stays : ∀ place, (d.node? place).isSome = true → d'.node? place = d.node? place) :
    c.isGone d' = false := by
  unfold isGone at there ⊢
  cases pending : c.logPending with
  | false => rfl
  | true =>
    cases at_ : c.handle.place with
    | none => rfl
    | some place =>
      simp only [pending, at_, Option.any_some, Bool.true_and] at there ⊢
      have stood : (d.node? place).isSome = true := by simpa using there
      rw [stays place stood]
      exact there

/-! ### Exports -/

section Export

variable (asked : Location.ofPath path = .ok l) (named : l.isNameless = false)
  (counted : d.Counted) (apart : d.fileAt? path ≠ some c.handle.file)
  (shown : d.seen c.handle = .ok stored)

include asked named counted apart shown

/-- The file that an export opens is another than that of its connection. What other files hold
and what stands at some place is as it was. -/
theorem opening_of_export {made opened : Disk} {target : Handle}
    (directories : d.createDirectories (Path.steps path).dropLast = (none, made))
    (opens : made.openFile path = .ok (target, opened)) :
    c.handle.file ≠ target.file ∧ Disk.SameBut target.file d opened ∧
      ∀ place, (d.node? place).isSome = true → opened.node? place = d.node? place := by
  obtain ⟨nodes, same⟩ := Disk.exists_nodes_createDirectories (Path.steps path).dropLast d
  have gains := Disk.gainsDirectories_createDirectories (Path.steps path).dropLast d
  rw [directories] at same gains
  dsimp only at same gains
  obtain ⟨before, known⟩ := Disk.exists_stored_of_seen shown
  refine ⟨?_, ?_, fun place stood => ?_⟩
  · have counted' : made.Counted := same ▸ counted
    have known' : made.stored? c.handle.file = some before := same ▸ known
    refine (Disk.file_ne_of_openFile asked named opens counted' known' ?_).symm
    rw [ne_eq, Disk.fileAt?_eq_some_iff asked named] at apart ⊢
    rwa [gains.file_iff]
  · exact .trans (.of_contents (by rw [same])) (Disk.sameBut_of_openFile asked named opens)
  · have kept : made.node? place = d.node? place := by
      obtain kept | ⟨free, -⟩ := gains place
      · exact kept
      · rw [free] at stood
        cases stood
    rw [← kept] at stood ⊢
    exact Disk.node?_of_openFile asked named opens stood

/-- A copy that an export makes is in the file that the path names, and is of what its connection
shows. -/
theorem copied_of_export {made opened ready : Disk} {target : Handle} {origin : StoredArchive}
    (directories : d.createDirectories (Path.steps path).dropLast = (none, made))
    (opens : made.openFile path = .ok (target, opened)) (tables : opened.makeTables target = .ok ready)
    (copied : ready.seen c.handle = .ok origin) :
    let left := (ready.copyArchive origin target.file).closeFile target
    left.nodes = ready.nodes ∧ left.stored? c.handle.file = d.stored? c.handle.file ∧
      left.archiveAt? path = some stored.archive := by
  intro left
  obtain ⟨differs, others, -⟩ :=
    opening_of_export asked named counted apart shown directories opens
  have others := others.trans (Disk.sameBut_makeTables tables)
  have nodes : left.nodes = ready.nodes :=
    (Disk.nodes_closeFile _ _).trans (Disk.nodes_copyArchive _ _ _)
  have stands : left.fileAt? path = some target.file := by
    rw [Disk.fileAt?_congr (nodes.trans (Disk.nodes_makeTables tables))]
    exact Disk.fileAt?_of_openFile asked named opens
  refine ⟨nodes, ?_, ?_⟩
  · exact ((others.trans (Disk.sameBut_copyArchive _ _ _)).trans (Disk.sameBut_closeFile _ _))
      _ differs
  · obtain ⟨before, known⟩ := Disk.exists_stored_of_makeTables tables
    rw [Disk.seen_congr (others _ differs), shown] at copied
    cases copied
    rw [Disk.archiveAt?, stands, Option.bind_some, Disk.archive?_closeFile,
      Disk.archive?_copyArchive known]

/-- An export leaves its connection and the archive in its file as they are. If it succeeds, the
path holds what the connection shows. -/
theorem exportTo_cases :
    (c.exportTo path d).connection = c ∧
    (c.exportTo path d).disk.stored? c.handle.file = d.stored? c.handle.file ∧
    ((c.exportTo path d).result = .ok () → l.frozen = false ∧
      c.isGone (c.exportTo path d).disk = false ∧
      (c.exportTo path d).disk.archiveAt? path = some stored.archive) := by
  have failed (failure : Failure) {p : Prop} (ok : throw failure = Except.ok ()) : p :=
    absurd ok (throw_ne_ok failure ())
  obtain ⟨nodes, same⟩ := Disk.exists_nodes_createDirectories (Path.steps path).dropLast d
  rw [exportTo]
  rcases directories : d.createDirectories (Path.steps path).dropLast with ⟨_ | cause, made⟩
  · rw [directories] at same
    dsimp only at same ⊢
    split
    · exact ⟨rfl, Disk.stored?_congr (by rw [refuse, same]) _, failed _⟩
    · next target opened opens =>
      obtain ⟨differs, others, -⟩ :=
        opening_of_export asked named counted apart shown directories opens
      split
      · exact ⟨rfl, (others.trans (Disk.sameBut_closeFile _ _)) _ differs, failed _⟩
      · next ready tables =>
        have others := others.trans (Disk.sameBut_makeTables tables)
        have closed := (others.trans (Disk.sameBut_closeFile _ _)) _ differs
        split
        · next origin there copied =>
          split
          · exact ⟨rfl, closed, failed _⟩
          · split
            · exact ⟨rfl, closed, failed _⟩
            · next writable held =>
              obtain ⟨nodes, unchanged, holds⟩ := copied_of_export asked named counted apart shown
                directories opens tables copied
              exact ⟨rfl, unchanged, fun _ =>
                ⟨Disk.frozen_of_openFile asked named opens (Bool.eq_false_iff.mpr writable),
                  isGone_of_node? there fun place _ => Disk.node?_congr nodes place, holds⟩⟩
        · exact ⟨rfl, closed, failed _⟩
  · rw [directories] at same
    dsimp only at same ⊢
    exact ⟨rfl, Disk.stored?_congr (by rw [refuse, same]) _, failed _⟩

/-- After an export that succeeds the connection serves its archive, if it can be written through. -/
theorem exportTo_serves (tables : stored.archive.layout.hasFilePaths = true)
    (sound : c.handle.Sound) (writable : c.handle.readOnly = false)
    (succeeds : (c.exportTo path d).result = .ok ()) :
    c.Serves (c.exportTo path d).disk (c.obstacle? (c.exportTo path d).disk) stored.archive := by
  obtain ⟨-, unchanged, left⟩ := exportTo_cases asked named counted apart shown
  obtain ⟨-, there, -⟩ := left succeeds
  exact {
    shown := ⟨stored, (Disk.seen_congr unchanged).trans shown, rfl⟩
    there := there
    thawed := sound.thawed writable
    writable := writable
    hindrance := rfl
    paths := tables }

/-- An export succeeds if the path can take an archive and the connection shows one. -/
theorem exportTo_eq_ok (takes : d.CanTake path) (there : c.isGone d = false) :
    (c.exportTo path d).result = .ok () := by
  obtain ⟨made, target, opened, held, directories, opens, seen, free⟩ := takes
  obtain ⟨differs, others, stays⟩ :=
    opening_of_export asked named counted apart shown directories opens
  obtain ⟨writable, unheld⟩ := Disk.writable_of_changeFault? free
  obtain ⟨ready, tables, unheld'⟩ :=
    Disk.exists_makeTables (Disk.sound_of_openFile opens) seen free
  have nodes := Disk.nodes_makeTables tables
  have there' : c.isGone ready = false :=
    isGone_of_node? there fun place stood => (Disk.node?_congr nodes place).trans (stays place stood)
  have copied : ready.seen c.handle = .ok stored := by
    rw [Disk.seen_congr ((others.trans (Disk.sameBut_makeTables tables)) _ differs), shown]
  rw [exportTo, directories]
  simp only [opens, tables, there', copied, writable, unheld', Bool.false_eq_true, if_false]

end Export

/-! ### Imports -/

/-- Tables that are there, with files, are ready. -/
theorem prepare_of_hasFilePaths (access : Access) (noticed : access.overlooksTables = false)
    (paths : a.layout.hasFilePaths = true) :
    (Action.prepare access a).result = .ok () ∧ (Action.prepare access a).archive = a := by
  have prepared : a.layout.prepared = a.layout := Layout.prepared_of_hasFilePaths paths
  have differs : a.layout ≠ .old := by
    intro old
    rw [old] at paths
    cases paths
  simp [Action.prepare, Archive.prepare, prepared, noticed, differs]

/-- Tables that cannot be seen are not made ready. -/
theorem runBlind_prepare_ne_ok (cause : DatabaseFault) :
    (c.runBlind now Action.prepare cause d).result ≠ .ok () := by
  simp [runBlind, Action.prepare, Access.permission, refuse, Trace.ended]

/-- Tables that are known, with files, are found to be ready. -/
theorem Serves.prepare {obstacle : Option Obstacle} (serves : c.Serves d obstacle a)
    (knows : c.knowsTables = true) (now : Millis) :
    (c.run now Action.prepare d).result = .ok () ∧
      (c.run now Action.prepare d).disk = d.setArchive c.handle.file a ∧
      (c.run now Action.prepare d).connection.Serves (c.run now Action.prepare d).disk obstacle
        a := by
  obtain ⟨result, disk, left⟩ := serves.run_eq Action.prepare now
  obtain ⟨ready, same⟩ := prepare_of_hasFilePaths
    ⟨now, obstacle, !c.knowsTables && a.layout.hasTables, c.kept⟩ (by simp [knows]) serves.paths
  rw [same] at disk left
  exact ⟨result.trans ready, disk, left serves.paths⟩

theorem importFrom_eq {origin : Handle} {opened : Disk} {shown : StoredArchive}
    (present : d.pathExists path = true) (opens : d.openFile path = .ok (origin, opened))
    (given : opened.seen origin = .ok stored) (taken : opened.seen c.handle = .ok shown)
    (there : c.isGone opened = false) (free : c.obstacle? opened = none) :
    c.importFrom now path d =
      { c with knowsTables := stored.archive.layout.hasTables }.run now Action.prepare
        ((opened.copyArchive stored c.handle.file).closeFile origin) := by
  simp only [importFrom, present, opens, given, taken, there, free, if_true, Bool.false_eq_true,
    if_false]

/-- An import that succeeds got as far as to the copy. -/
theorem exists_of_importFrom_eq_ok (succeeds : (c.importFrom now path d).result = .ok ()) :
    ∃ origin opened stored shown, d.pathExists path = true ∧
      d.openFile path = .ok (origin, opened) ∧ opened.seen origin = .ok stored ∧
      opened.seen c.handle = .ok shown ∧ c.isGone opened = false ∧ c.obstacle? opened = none := by
  rw [importFrom] at succeeds
  split at succeeds
  · next present =>
    split at succeeds
    · cases succeeds
    · next origin opened opens =>
      dsimp only at succeeds
      split at succeeds
      · cases succeeds
      · cases succeeds
      · next stored shown given taken =>
        split at succeeds
        · cases succeeds
        · next there =>
          split at succeeds
          · cases succeeds
          · cases succeeds
          · next free =>
            exact ⟨origin, opened, stored, shown, present, opens, given, taken,
              Bool.eq_false_iff.mpr there, free⟩
  · cases succeeds

theorem obstacle?_congr {c' : Connection} (same : c'.handle = c.handle) :
    c'.obstacle? d = c.obstacle? d := by
  unfold obstacle?
  rw [same]

/-- A connection that can be written through is not kept from a change by being read-only. -/
theorem obstacle?_ne_readOnly (writable : c.handle.readOnly = false) :
    c.obstacle? d ≠ some .readOnly := by
  unfold obstacle?
  rw [writable, if_neg Bool.false_ne_true]
  split
  · exact nofun
  · exact nofun

/-- What is not kept from a change by being read-only can be written through. -/
theorem writable_of_obstacle? (free : c.obstacle? d ≠ some .readOnly) :
    c.handle.readOnly = false := by
  unfold obstacle? at free
  by_cases writable : c.handle.readOnly = true
  · rw [if_pos writable] at free
    exact absurd rfl free
  · exact Bool.eq_false_iff.mpr writable

section Import

variable (asked : Location.ofPath path = .ok l) (named : l.isNameless = false)
  (changing : l.frozen = false) (held : d.archiveAt? path = some a)
  (apart : d.fileAt? path ≠ some c.handle.file) (sound : c.handle.Sound)

include asked named changing held apart sound

/-- A copy that is made has the archive that the path holds. Other archives are as they were, and
all that other files hold but that of the path, whose log may have been brought in. -/
theorem copied_of_import {origin : Handle} {opened : Disk} {shown : StoredArchive}
    (opens : d.openFile path = .ok (origin, opened)) (given : opened.seen origin = .ok stored)
    (taken : opened.seen c.handle = .ok shown) (writable : c.handle.readOnly = false) :
    let copied := (opened.copyArchive stored c.handle.file).closeFile origin
    stored.archive = a ∧ copied.nodes = opened.nodes ∧
      (∃ t, copied.stored? c.handle.file = some t ∧ t.archive = a) ∧
      ∀ id, id ≠ c.handle.file → copied.archive? id = d.archive? id ∧
        (d.fileAt? path ≠ some id → copied.stored? id = d.stored? id) := by
  intro copied
  obtain ⟨id, stands, archive⟩ := Option.bind_eq_some_iff.mp held
  obtain ⟨frozen, -⟩ := Disk.openNamed_cases (Disk.openNamed_of_openFile asked named opens)
  obtain ⟨rfl, uses, rfl⟩ := Disk.exists_uses_of_openFile asked named opens stands
  have differs : c.handle.file ≠ origin.file := fun same => apart (same ▸ stands)
  have own : stored.archive = a := by
    have known : d.stored? origin.file = some stored :=
      Disk.stored?_of_seen given (frozen.trans changing)
    rw [Disk.archive?, known] at archive
    exact Option.some.inj archive
  refine ⟨own, (Disk.nodes_closeFile _ _).trans (Disk.nodes_copyArchive _ _ _), ?_, ?_⟩
  · have before := Disk.stored?_of_seen taken (sound.thawed writable)
    rw [Disk.sameBut_closeFile _ _ _ differs, Disk.copyArchive, before, Disk.stored?_setContent]
    exact ⟨_, rfl, own⟩
  · intro id others
    have kept := Disk.sameBut_copyArchive { d with uses } stored c.handle.file id others
    refine ⟨?_, fun elsewhere => ?_⟩
    · rw [Disk.archive?_closeFile, Disk.archive?, kept]
      rfl
    · have another : id ≠ origin.file := fun same => elsewhere (same ▸ stands)
      exact (Disk.sameBut_closeFile _ origin id another).trans kept

/-- A copy that can be read is served. -/
theorem serves_of_import {origin : Handle} {opened : Disk} {shown t : StoredArchive}
    (paths : a.layout.hasFilePaths = true) (opens : d.openFile path = .ok (origin, opened))
    (given : opened.seen origin = .ok stored) (taken : opened.seen c.handle = .ok shown)
    (there : c.isGone opened = false) (writable : c.handle.readOnly = false) (knows : Bool) :
    let copied := (opened.copyArchive stored c.handle.file).closeFile origin
    copied.seen c.handle = .ok t →
      ({ c with knowsTables := knows } : Connection).Serves copied (c.obstacle? copied) a := by
  intro copied seen
  obtain ⟨-, nodes, ⟨t', known, copy⟩, -⟩ :=
    copied_of_import asked named changing held apart sound opens given taken writable
  have thawed := sound.thawed writable
  refine ⟨⟨t, seen, ?_⟩, ?_, thawed, writable, rfl, paths⟩
  · obtain rfl := Option.some.inj (known.symm.trans (Disk.stored?_of_seen seen thawed))
    exact copy
  · exact isGone_of_node? there fun place _ => Disk.node?_congr nodes place

/-- An import that succeeds leaves the archive that the path holds, which the connection serves
from then on. Other archives are as they were. -/
theorem importFrom_serves (paths : a.layout.hasFilePaths = true)
    (succeeds : (c.importFrom now path d).result = .ok ()) :
    (c.importFrom now path d).disk.archive? c.handle.file = some a ∧
      (∀ id, id ≠ c.handle.file →
        (c.importFrom now path d).disk.archive? id = d.archive? id ∧
          (d.fileAt? path ≠ some id → (c.importFrom now path d).disk.stored? id = d.stored? id)) ∧
      (c.importFrom now path d).connection.Serves (c.importFrom now path d).disk
        (c.obstacle? (c.importFrom now path d).disk) a := by
  obtain ⟨origin, opened, stored, shown, present, opens, given, taken, there, free⟩ :=
    exists_of_importFrom_eq_ok succeeds
  have writable : c.handle.readOnly = false := writable_of_obstacle? (by rw [free]; simp)
  obtain ⟨own, -, -, others⟩ :=
    copied_of_import asked named changing held apart sound opens given taken writable
  rw [importFrom_eq present opens given taken there free] at succeeds ⊢
  cases seen : ((opened.copyArchive stored c.handle.file).closeFile origin).seen c.handle with
  | error cause =>
    rw [run, seen] at succeeds
    exact absurd succeeds (runBlind_prepare_ne_ok cause)
  | ok t =>
    have serves := serves_of_import asked named changing held apart sound paths opens given taken
      there writable stored.archive.layout.hasTables seen
    have knows : stored.archive.layout.hasTables = true := by
      rw [own]
      exact Layout.hasTables_of_hasFilePaths paths
    obtain ⟨-, disk, left⟩ := serves.prepare knows now
    have same := left.hindrance
    rw [obstacle?_congr (handle_run _ _ _ _)] at same
    rw [← same] at left
    refine ⟨?_, fun id differs => ?_, left⟩
    · rw [disk, Disk.archive?_setArchive, if_pos rfl]
    · rw [disk, Disk.archive?_setArchive, if_neg differs, Disk.sameBut_setArchive _ _ _ id differs]
      exact others id differs

/-- An import succeeds if the path can give an archive and the connection take one. -/
theorem importFrom_eq_ok (paths : a.layout.hasFilePaths = true) (gives : d.CanGive path)
    (takes : c.CanTake d) : (c.importFrom now path d).result = .ok () := by
  obtain ⟨present, origin, opened, stored, opens, given⟩ := gives
  obtain ⟨⟨shown, taken⟩, there, free, guarded⟩ := takes
  obtain ⟨id, stands, -⟩ := Option.bind_eq_some_iff.mp held
  obtain ⟨-, uses, rfl⟩ := Disk.exists_uses_of_openFile asked named opens stands
  have writable : c.handle.readOnly = false := writable_of_obstacle? (by rw [free]; simp)
  obtain ⟨own, -, ⟨t, known, -⟩, -⟩ :=
    copied_of_import asked named changing held apart sound opens given taken writable
  have seen := Disk.seen_of_guarded known (sound.thawed writable) guarded
  have serves := serves_of_import asked named changing held apart sound paths opens given taken
    there writable stored.archive.layout.hasTables seen
  rw [importFrom_eq present opens given taken there free]
  refine (serves.prepare ?_ now).1
  rw [own]
  exact Layout.hasTables_of_hasFilePaths paths

end Import

/-- From a path that is missing nothing is imported. -/
theorem importFrom_of_missing (missing : d.pathExists path = false) :
    c.importFrom now path d = c.refuse d (.fault (.input (.archiveNotFound path))) := by
  rw [importFrom, missing]
  rfl

/-- From a file that is no database nothing is imported. -/
theorem importFrom_of_no_archive {id : FileId} (asked : Location.ofPath path = .ok l)
    (named : l.isNameless = false) (stands : d.fileAt? path = some id)
    (other : d.stored? id = none) :
    (c.importFrom now path d).result ≠ .ok () ∧
      ∀ id, (c.importFrom now path d).disk.stored? id = d.stored? id := by
  rw [importFrom]
  split
  · split
    · exact ⟨throw_ne_ok _ _, fun _ => rfl⟩
    · next origin opened opens =>
      obtain ⟨rfl, uses, rfl⟩ := Disk.exists_uses_of_openFile asked named opens stands
      have other' : ({ d with uses } : Disk).stored? origin.file = none := other
      have unseen : ({ d with uses } : Disk).seen origin = .error .notADatabase := by
        rw [Disk.seen, other']
      simp only [unseen]
      refine ⟨throw_ne_ok _ _, fun id => ?_⟩
      by_cases same : id = origin.file
      · have kept := Disk.archive?_closeFile { d with uses } origin origin.file
        rw [Disk.archive?, Disk.archive?, other', Option.map_none, Option.map_eq_none_iff] at kept
        rw [same, other]
        exact kept
      · exact Disk.sameBut_closeFile _ _ id same
  · exact ⟨throw_ne_ok _ _, fun _ => rfl⟩

end Connection

/-! ### Stores -/

namespace Store

variable {α : Type} {s sA sB : Store} {c cA cB : Connection} {now : Millis}
  {d d' dA : Disk} {path : String} {l : Location} {stored : StoredArchive}

/-- What is used by a store is its next connection. -/
theorem Connects.withConnection (connects : s.Connects now d c d')
    (use : Connection → Disk → ConnectionReply α) :
    (s.withConnection now use d).result = (use c d').result ∧
      (s.withConnection now use d).store = { s with
        state := .ready (use c d').connection
        poisoned := (use c d').result matches .error .crashUnderLock } ∧
      (s.withConnection now use d).disk = (use c d').disk := by
  obtain ⟨sane, connects⟩ := connects
  simp only [Store.withConnection, sane, Bool.false_eq_true, if_false]
  cases state : s.state with
  | closed =>
    simp only [state] at connects
  | ready known =>
    simp only [state] at connects ⊢
    obtain ⟨rfl, rfl⟩ := connects
    exact ⟨rfl, rfl, rfl⟩
  | notReady =>
    simp only [state] at connects ⊢
    obtain ⟨made, rfl⟩ := connects
    simp only [made]
    exact ⟨rfl, rfl, rfl⟩

theorem Connects.counted (connects : s.Connects now d c d') (counted : d.Counted) :
    d'.Counted := by
  obtain ⟨-, connects⟩ := connects
  split at connects
  · exact connects.elim
  · exact connects.2 ▸ counted
  · have any : Tolerant fun _ _ => True := ⟨fun _ => trivial, fun _ => trivial⟩
    have changes : Disk.Changes (fun _ _ => True) (fun _ => True) d (s.connect now d).disk :=
      any.changes_connect s
    rw [connects.2]
    exact changes.counted counted

/-- A store exports to a path where nothing stands, and an open one imports from there. Both
succeed, with these replies. -/
inductive Transfers (now : Millis) : StoreReply Unit → StoreReply Unit → Prop
  | replies {d : Disk} (reached : Disk.Reached (· ≤ ·) now d) (sA sB : Store) (path : String)
      (ready : sB.isReady = true) (free : d.fileAt? path = none)
      (exported : (sA.exportTo now path d).result = .ok ())
      (imported : (sB.importFrom now path (sA.exportTo now path d).disk).result = .ok ()) :
      Transfers now (sA.exportTo now path d) (sB.importFrom now path (sA.exportTo now path d).disk)

/-- An archive is transferred as a whole. A store with tables exports to the path of a file that
it has not open, on a disk whose files have ids that were given out, as has every disk that is
reached. This leaves its archive as it is. The export succeeds if the path can take an archive and
the connection shows one, and then the path holds the archive. As long as it does, an import from
there by an open store, which has not this file open either, succeeds if the path can give the
archive and the store can take it. Then the store has the very archive, other archives are as they
were, and all that is asked of it afterwards about its archive is answered as by the store that
exported, if the same stands in the way of a change and both read the same language by default.
From a path that is missing, and from a file that is no database, an import fails and leaves all
archives as they are. -/
theorem import_of_export (later : Millis) (soundA : sA.Sound) (soundB : sB.Sound)
    (counted : d.Counted)
    (connects : sA.Connects now d cA dA) (shown : dA.seen cA.handle = .ok stored)
    (tables : stored.archive.layout.hasFilePaths = true)
    (asked : Location.ofPath path = .ok l) (named : l.isNameless = false)
    (apart : dA.fileAt? path ≠ some cA.handle.file)
    (sane : sB.poisoned = false) (ready : sB.state = .ready cB)
    (apart' : d'.fileAt? path ≠ some cB.handle.file) :
    let exported := sA.exportTo now path d
    let imported := sB.importFrom later path d'
    exported.disk.stored? cA.handle.file = dA.stored? cA.handle.file ∧
    (dA.CanTake path → cA.isGone dA = false → exported.result = .ok ()) ∧
    (exported.result = .ok () → exported.disk.archiveAt? path = some stored.archive ∧
      (d'.archiveAt? path = some stored.archive →
        (d'.CanGive path → cB.CanTake d' → imported.result = .ok ()) ∧
        (imported.result = .ok () →
          imported.disk.archive? cB.handle.file = some stored.archive ∧
          (∀ id, id ≠ cB.handle.file → imported.disk.archive? id = d'.archive? id ∧
            (d'.fileAt? path ≠ some id → imported.disk.stored? id = d'.stored? id)) ∧
          (cB.obstacle? imported.disk = cA.obstacle? exported.disk →
            sB.settings.defaultLanguage = sA.settings.defaultLanguage →
            ∀ requests, imported.store.askAll requests imported.disk =
              exported.store.askAll requests exported.disk)))) ∧
    (d'.pathExists path = false →
      imported.result = .error (.fault (.input (.archiveNotFound path))) ∧
        imported.store = sB ∧ imported.disk = d') ∧
    ∀ id, d'.fileAt? path = some id → d'.stored? id = none →
      imported.result ≠ .ok () ∧ ∀ id, imported.disk.stored? id = d'.stored? id := by
  intro exported imported
  have countedA := connects.counted counted
  have soundC := connects.sound soundA
  have connectsB : sB.Connects later d' cB d' := ⟨sane, by simp [ready]⟩
  obtain ⟨resultA, storeA, diskA⟩ := connects.withConnection (·.exportTo path)
  obtain ⟨resultB, storeB, diskB⟩ := connectsB.withConnection (·.importFrom later path)
  obtain ⟨connection, unchanged, succeeds⟩ :=
    Connection.exportTo_cases asked named countedA apart shown
  change exported.result = _ at resultA
  change exported.store = _ at storeA
  change exported.disk = _ at diskA
  change imported.result = _ at resultB
  change imported.store = _ at storeB
  change imported.disk = _ at diskB
  refine ⟨?_, ?_, fun ok => ?_, ?_, ?_⟩
  · rw [diskA]
    exact unchanged
  · intro takes there
    rw [resultA]
    exact Connection.exportTo_eq_ok asked named countedA apart shown takes there
  · rw [resultA] at ok
    obtain ⟨changing, there, given⟩ := succeeds ok
    refine ⟨diskA ▸ given, fun held => ⟨fun gives takes => ?_, fun ok' => ?_⟩⟩
    · rw [resultB]
      exact Connection.importFrom_eq_ok asked named changing held apart' (soundB cB ready) tables
        gives takes
    · rw [resultB] at ok'
      obtain ⟨copy, others, serves⟩ := Connection.importFrom_serves asked named changing held apart'
        (soundB cB ready) tables ok'
      refine ⟨diskB ▸ copy, diskB ▸ others, fun rights language requests => ?_⟩
      refine Store.Alike.askAll ?_ requests
      rw [diskA, diskB] at rights
      rw [diskA, diskB]
      have writable : cA.handle.readOnly = false := by
        refine Connection.writable_of_obstacle? (d := (cA.exportTo path dA).disk) ?_
        rw [← rights, ← serves.hindrance]
        exact Connection.obstacle?_ne_readOnly serves.writable
      have servesA := Connection.exportTo_serves asked named countedA apart shown tables
        soundC writable ok
      exact {
        language := by
          rw [storeA, storeB]
          exact language
        poisoned := by
          rw [storeA, storeB]
          simp only [ok, ok']
        state := .inr ⟨cA, _, _, _, by rw [storeA, connection], by rw [storeB], servesA,
          rights ▸ serves⟩ }
  · intro missing
    rw [resultB, storeB, diskB, Connection.importFrom_of_missing missing]
    refine ⟨rfl, ?_, rfl⟩
    simp only [Connection.refuse, ← ready, ← sane]
  · intro id stands other
    rw [resultB, diskB]
    exact Connection.importFrom_of_no_archive asked named stands other

/-- The archive of a file comes to a store in memory that had a mod of its own. Both stores give
the next mod the same id. -/
theorem import_of_export_of_two_stores :
    ∃ (exported imported : StoreReply Unit) (a b : Archive), Transfers 2 exported imported ∧
      exported.disk.archive? 0 = some a ∧ exported.disk.archive? 1 = some b ∧ b ≠ a ∧
      imported.disk.archive? 0 = some a ∧ imported.disk.archive? 1 = some a ∧
      (imported.store.ask 3 (.ensureMod "Beta" none) imported.disk).result = .ok 2 ∧
      ∀ requests, imported.store.askAll requests imported.disk =
        exported.store.askAll requests exported.disk := by
  let sA : Store := { settings := { dbPath := "a.sqlite" } }
  let sB : Store := { settings := { dbPath := ":memory:" } }
  let files : List SourceFile := [⟨"a.yml", [⟨"k", none⟩], ["X"]⟩]
  let ops : List Operation := [.update "Alpha" none files "ko" (.rendering ("ko:" ++ ·))]
  let opened := sB.ensureMod 2 "Old" none (sA.operateAll ops)
  have reached : Disk.Reached (· ≤ ·) 2 opened.disk :=
    .step (sA.reached_operateAll ops) (by decide) (.operate sB (.ensureMod "Old" none) _)
  let cA : Connection := { handle := { file := 0, place := some ["a.sqlite"] } }
  let cB : Connection := { handle := { file := 1 } }
  let dA := (sA.connect 2 opened.disk).disk
  have connects : sA.Connects 2 opened.disk cA dA := ⟨rfl, by decide +kernel, rfl⟩
  have ready : opened.store.state = .ready cB := by decide +kernel
  have soundB : opened.store.Sound := by
    intro c known
    cases ready.symm.trans known
    exact nofun
  let stored := (dA.stored? 0).getD {}
  have shown : dA.seen cA.handle = .ok stored := by decide +kernel
  let exported := sA.exportTo 2 "c.sqlite" opened.disk
  let imported := opened.store.importFrom 2 "c.sqlite" exported.disk
  have transfers : Transfers 2 exported imported := .replies reached sA opened.store "c.sqlite"
    (by decide +kernel) (by decide +kernel) (by decide +kernel) (by decide +kernel)
  have soundA : sA.Sound := fun _ known => nomatch known
  have sane : opened.store.poisoned = false := by decide +kernel
  have asked : Location.ofPath "c.sqlite" = .ok { path := "c.sqlite" } := by decide
  have apart : exported.disk.fileAt? "c.sqlite" ≠ some cB.handle.file := by decide +kernel
  obtain ⟨-, -, succeeds, -⟩ := import_of_export 2 soundA soundB reached.counted connects
    shown (by decide +kernel) asked rfl (by decide +kernel) sane ready apart
  obtain ⟨given, imports⟩ := succeeds (by decide +kernel)
  obtain ⟨copy, others, answers⟩ := (imports given).2 (by decide +kernel)
  have own : exported.disk.archive? 0 = some stored.archive := by decide +kernel
  obtain ⟨b, held, differs⟩ : ∃ b ∈ exported.disk.archive? 1, b ≠ stored.archive := by
    decide +kernel
  exact ⟨exported, imported, stored.archive, b, transfers, own, held, differs,
    (others 0 (by decide)).1.trans own, copy, by decide +kernel,
    answers (by decide +kernel) (by decide +kernel)⟩

/-- What a store answers depends on more than its archive. After a transfer the answers differ if
the stores have other default languages; if another file is imported in between, here that of the
archive that was exported; if the one can only read; and if its tables were taken away by an
archive without any. -/
theorem answers_differ_after_transfer :
    (∃ now exported imported, Transfers now exported imported ∧
      (imported.store.ask now (.defaultEntries "Alpha" "a.yml") imported.disk).result ≠
        (exported.store.ask now (.defaultEntries "Alpha" "a.yml") exported.disk).result) ∧
    (∃ now exported imported, Transfers now exported imported ∧
      let again (r : StoreReply Unit) :=
        let made := r.store.ensureMod now "Beta" none r.disk
        made.store.importFrom now "a.sqlite" made.disk
      ((again imported).store.ask now (.modNamed "Beta") (again imported).disk).result ≠
        ((again exported).store.ask now (.modNamed "Beta") (again exported).disk).result) ∧
    (∃ now exported imported, Transfers now exported imported ∧
      (imported.store.ask now (.ensureMod "Beta" none) imported.disk).result ≠
        (exported.store.ask now (.ensureMod "Beta" none) exported.disk).result) ∧
    ∃ now exported imported, Transfers now exported imported ∧
      (imported.store.ask now (.modNamed "Alpha") imported.disk).result ≠
        (exported.store.ask now (.modNamed "Alpha") exported.disk).result := by
  let writer : Store := { settings := { dbPath := "a.sqlite", defaultLanguage := "ko" } }
  let reader : Store := { settings := { dbPath := "file:a.sqlite?mode=ro" } }
  let files : List SourceFile := [⟨"a.yml", [⟨"k", none⟩], ["X"]⟩]
  let ops : List Operation := [.update "Alpha" none files "ko" (.rendering ("ko:" ++ ·))]
  -- The store that is imported into has a mod of its own.
  let other : Store := { settings := { dbPath := ":memory:", defaultLanguage := "ja" } }
  let opened := other.ensureMod 2 "Old" none (writer.operateAll ops)
  have reached : Disk.Reached (· ≤ ·) 2 opened.disk :=
    .step (writer.reached_operateAll ops) (by decide) (.operate other (.ensureMod "Old" none) _)
  have fromWriter := Transfers.replies reached writer opened.store "c.sqlite" (by decide +kernel)
    (by decide +kernel) (by decide +kernel) (by decide +kernel)
  have fromReader := Transfers.replies reached reader opened.store "c.sqlite" (by decide +kernel)
    (by decide +kernel) (by decide +kernel) (by decide +kernel)
  refine ⟨⟨2, _, _, fromWriter, ?_⟩, ⟨2, _, _, fromWriter, ?_⟩, ⟨2, _, _, fromReader, ?_⟩, ?_⟩
  · decide +kernel
  · decide +kernel
  · decide +kernel
  · -- A connection that made no tables exports to the file of a store that is open.
    let ready := writer.ensureMod 3 "Alpha" none opened.disk
    let blank := Connection.openPath "e.sqlite" 0 ready.disk
    obtain ⟨c, found, free, exported, imported, differs⟩ : ∃ c ∈ blank.result.toOption,
        let d := (c.exportTo "a.sqlite" blank.disk).disk
        let exported := ready.store.exportTo 3 "c.sqlite" d
        let imported := opened.store.importFrom 3 "c.sqlite" exported.disk
        d.fileAt? "c.sqlite" = none ∧ exported.result = .ok () ∧ imported.result = .ok () ∧
        (imported.store.ask 3 (.modNamed "Alpha") imported.disk).result ≠
          (exported.store.ask 3 (.modNamed "Alpha") exported.disk).result := by decide +kernel
    have touched : Disk.Reached (· ≤ ·) 3 ready.disk :=
      reached.step (by decide) (.operate writer (.ensureMod "Alpha" none) _)
    have connected : Disk.Reached (· ≤ ·) 3 blank.disk :=
      touched.step (by decide) (.openPath "e.sqlite" 0 _)
    have emptied := connected.step (Int.le_refl 3) (.exportTo c "a.sqlite" _)
    exact ⟨3, _, _, .replies emptied ready.store opened.store "c.sqlite" (by decide +kernel) free
      exported imported, differs⟩

end Store

end LocalizationMemory
