import LocalizationMemory.Proofs.Archive.Consistency

/-!
# The disks that can be reached

From a disk without an archive, everything that stores and connections offer can be done
in any order, through any handle, and can succeed, be refused or fail half way: by a
rival that holds the right to write, by rules that refuse inserts, by a file that cannot
be opened. What a clock does between two steps is left open. Every archive that is
reached in this way is consistent; and if the clock never goes back, nothing in it is of
a later time.

## Main definitions

* `Disk.Step` — what can be done at one time
* `Disk.Reached` — the disks that can be reached, by the way the clock goes
* `Archive.Reached` — the archives on them
* `Store.operateAll` — the disk after some operations on stores

## Main results

* `Disk.Step.changes` — one step changes archives along any relation that lasts
* `Disk.Reached.every` — an invariant holds of every archive that is reached
* `Disk.Reached.consistent` — every archive that is reached is consistent, in its file as
  well as with what is only in the log
* `Archive.Reached.notAfter` — under a clock that never goes back nothing is of a later
  time
-/

namespace LocalizationMemory

/-- What can be done to a disk at one time. Handles are not kept track of: whatever state
a store or a connection is in, it may be used. -/
inductive Disk.Step (now : Millis) : Disk → Disk → Prop
  | operate (s : Store) (op : Operation) (d : Disk) : Step now d (s.operate now d op)
  | connect (s : Store) (d : Disk) : Step now d (s.connect now d).disk
  | storeExport (s : Store) (path : String) (d : Disk) : Step now d (s.exportTo now path d).disk
  | storeImport (s : Store) (path : String) (d : Disk) : Step now d (s.importFrom now path d).disk
  | storeClose (s : Store) (d : Disk) : Step now d (s.close d).disk
  | storeDrop (s : Store) (d : Disk) : Step now d (s.drop d).disk
  | openPath (path : String) (wait : Nat) (d : Disk) :
      Step now d (Connection.openPath path wait d).disk
  | run (c : Connection) (op : Operation) (d : Disk) : Step now d (c.run now op.action d).disk
  | runAt (path : String) (op : Operation) (d : Disk) :
      Step now d (Connection.runAt path now op.action d).disk
  | prepare (c : Connection) (d : Disk) : Step now d (c.run now Action.prepare d).disk
  | exportTo (c : Connection) (path : String) (d : Disk) : Step now d (c.exportTo path d).disk
  | importFrom (c : Connection) (path : String) (d : Disk) :
      Step now d (c.importFrom now path d).disk
  | close (c : Connection) (d : Disk) : Step now d (c.close d)
  /-- A mod is made that a rival makes after it was looked up. -/
  | ensureModAmid (s : Store) (path name : String) (remoteId : Option String) (d : Disk) :
      Step now d (s.ensureModAmid now path name remoteId d).disk
  /-- A version is stored that a rival stores after it was looked up. -/
  | snapshotAmid (s : Store) (path : String) (modId : RowId) (files : List SourceFile) (d : Disk) :
      Step now d (s.snapshotAmid now path modId files d).disk
  /-- The rival takes a right on a file. -/
  | hold (path : String) (d : Disk) : Step now d (d.hold path).2
  /-- The rival gives its right back. -/
  | release (d : Disk) : Step now d d.release

/-- The disks that can be reached from one without an archive. From one step to the next
the clock goes by `tick`. -/
inductive Disk.Reached (tick : Millis → Millis → Prop) : Millis → Disk → Prop
  | start (now : Millis) (d : Disk) (empty : ∀ id, d.stored? id = none) : Reached tick now d
  | step {now later : Millis} {d d' : Disk} (before : Reached tick now d) (ticks : tick now later)
      (step : Step later d d') : Reached tick later d'

/-- The archive is in a file of a disk that can be reached. -/
def Archive.Reached (tick : Millis → Millis → Prop) (now : Millis) (a : Archive) : Prop :=
  ∃ d id, Disk.Reached tick now d ∧ d.archive? id = some a

/-- The disk after operations on stores that find it, the last one first, each a
millisecond after the one before. -/
def Store.operateAll (s : Store) : List Operation → Disk
  | [] => {}
  | op :: earlier => s.operate (earlier.length + 1) (s.operateAll earlier) op

/-- Under a clock that never goes back a disk is reached by operations. -/
theorem Store.reached_operateAll (s : Store) (ops : List Operation) :
    Disk.Reached (· ≤ ·) ops.length (s.operateAll ops) := by
  induction ops with
  | nil => exact .start 0 {} fun _ => rfl
  | cons op earlier ih =>
    exact .step ih (Int.ofNat_le.mpr (Nat.le_succ _)) (.operate s op _)

variable {tick : Millis → Millis → Prop} {now : Millis} {d d' : Disk}

/-- One step changes the archives on a disk along a relation that lasts, if none is taken to
be spared. -/
theorem Disk.Step.changes {R : Archive → Archive → Prop} (lasting : Lasting R now)
    (step : Disk.Step now d d') : Disk.Changes R (fun _ => True) d d' := by
  cases step with
  | operate s op => exact lasting.changes_operate (fun _ _ _ => .inr trivial) op
  | connect s => exact lasting.changes_connect s
  | storeExport s path => exact lasting.changes_storeExport fun _ _ _ _ _ => trivial
  | storeImport s path => exact lasting.changes_storeImport path fun _ _ _ => trivial
  | storeClose s => exact lasting.changes_storeClose s
  | storeDrop s => exact lasting.changes_storeDrop s
  | openPath path wait => exact lasting.changes_openPath path wait
  | run c op => exact lasting.changes_runOperation op (.inr trivial)
  | runAt path op => exact lasting.changes_runOperationAt op path
  | prepare c => exact lasting.changes_runPrepare now (.inr trivial)
  | exportTo c path => exact lasting.changes_exportTo fun _ _ => trivial
  | importFrom c path => exact lasting.changes_importFrom path trivial
  | close c => exact Disk.changes_closeFile lasting.refl _ _
  | ensureModAmid s path name remoteId =>
    exact lasting.changes_ensureModAmid (fun _ _ _ => .inr trivial) path name remoteId
  | snapshotAmid s path modId files =>
    exact lasting.changes_snapshotAmid (fun _ _ _ => .inr trivial) path modId files
  | hold path => exact Disk.changes_hold lasting.refl _ _
  | release => exact Disk.changes_release lasting.refl _

/-- One step keeps an invariant of archives. -/
theorem Disk.Step.every {P : Archive → Prop} (inv : Invariant P now) (step : Disk.Step now d d')
    (h : d.Every P) : d'.Every P :=
  (step.changes inv.lasting).every inv.blank (fun _ _ kept => kept) h

/-- An invariant of each time, which outlives the ticks of the clock, holds of every
archive that is reached. -/
theorem Disk.Reached.every {P : Millis → Archive → Prop} (inv : ∀ now, Invariant (P now) now)
    (outlives : ∀ now later, tick now later → ∀ a, P now a → P later a)
    (h : Disk.Reached tick now d) : d.Every (P now) := by
  induction h with
  | start now d empty =>
    intro id stored hs
    rw [empty id] at hs
    cases hs
  | @step now later d d' before ticks step ih =>
    apply step.every (inv later)
    intro id stored hs
    have both := ih id stored hs
    exact ⟨outlives now later ticks _ both.1, outlives now later ticks _ both.2⟩

/-- Every archive that is reached is consistent, in its file as well as with what is only
in the log. -/
theorem Disk.Reached.consistent (h : Disk.Reached tick now d) {id : FileId}
    {stored : StoredArchive} (hs : d.stored? id = some stored) :
    stored.archive.Consistent ∧ stored.settled.Consistent :=
  h.every (fun now => Archive.Consistent.invariant now) (fun _ _ _ _ ha => ha) id stored hs

/-- After a version was stored, and stored again under a rule that refuses entries, its
archive is consistent. -/
theorem Disk.Reached.consistent_of_snapshots :
    ∃ d stored, Disk.Reached (· ≤ ·) 4 d ∧ d.stored? 0 = some stored ∧
      stored.archive.versions.rows.length = 1 ∧ stored.archive.Consistent ∧
        stored.settled.Consistent := by
  let s : Store := { settings := {} }
  let ops : List Operation := [.snapshot 1 [⟨"a.yml", [⟨"k", none⟩, ⟨"l", none⟩], ["Y", "Z"]⟩],
    .refuseInserts ⟨.sourceEntries, 2, "full"⟩,
    .snapshot 1 [⟨"a.yml", [⟨"k", none⟩], ["X"]⟩], .ensureMod "Alpha" none]
  have reached : Disk.Reached (· ≤ ·) 4 (s.operateAll ops) := s.reached_operateAll ops
  obtain ⟨stored, found, one⟩ : ∃ stored ∈ (s.operateAll ops).stored? 0,
      stored.archive.versions.rows.length = 1 := by decide +kernel
  obtain ⟨archive, settled⟩ := reached.consistent found
  exact ⟨_, stored, reached, found, one, archive, settled⟩

/-- An archive that is reached is consistent. -/
theorem Archive.Reached.isConsistent {a : Archive} (h : a.Reached tick now) : a.Consistent := by
  obtain ⟨d, id, reached, ha⟩ := h
  obtain ⟨stored, hs, rfl⟩ := Option.map_eq_some_iff.mp ha
  exact (reached.every (fun now => Archive.Consistent.invariant now)
    (fun _ _ _ _ ha => ha) id stored hs).1

/-- Under a clock that never goes back nothing in an archive is of a later time. -/
theorem Archive.Reached.notAfter {a : Archive} (h : a.Reached (· ≤ ·) now) : a.NotAfter now := by
  obtain ⟨d, id, reached, ha⟩ := h
  obtain ⟨stored, hs, rfl⟩ := Option.map_eq_some_iff.mp ha
  exact (reached.every (fun now => Archive.NotAfter.invariant now)
    (fun _ _ ticks _ ha => ha.mono ticks) id stored hs).1

end LocalizationMemory
