import Mathlib.Logic.Relation
import LocalizationMemory.Disk.Opening

/-!
# What becomes of the archives on a disk

What is done to a disk apart from running actions makes archives without tables, makes
the tables of an archive, copies one archive in place of another or brings what is in a
log into its file. All of it is made of a few changes, in which the archive of a file
moves along a relation, or is replaced if the file is one of those that may be lost. Two
things follow for whatever is made of such changes: a property that archives without
tables have and that the relation keeps is one of every archive on the disk, if it was
before; and a file that is not lost goes on with its archive, along the relation.

## Main definitions

* `Disk.Every` — all archives on a disk have a property, with and without their logs
* `Prepares` — archives without tables have a property and preparing keeps it
* `Disk.Change`, `Disk.Changes` — what becomes of the archives on a disk
* `Disk.Counted` — the files with archives have ids that were given out
* `Handle.Sound` — what is said never to change is not written to

## Main results

* `Disk.Changes.every` — changes keep a property of all archives
* `Disk.Changes.follows` — changes carry on the archives of files that are not lost
* `Disk.changes_openFile`, `Disk.changes_closeFile`, `Disk.changes_writeAhead`,
  `Disk.changes_makeTables`, `Disk.changes_copyArchive`, `Disk.changes_hold` — files are
  opened, closed, prepared, copied and held by such changes
-/

namespace LocalizationMemory

/-- Archives without tables have a property, and preparing an archive keeps it. -/
structure Prepares (P : Archive → Prop) : Prop where
  blank : P {}
  prepare : ∀ a, P a → P a.prepare

/-- What is said never to change can only be read. -/
def Handle.Sound (h : Handle) : Prop := h.frozen = true → h.readOnly = true

/-- What can be written to is not said never to change. -/
theorem Handle.Sound.thawed {h : Handle} (sound : h.Sound) (writable : h.readOnly = false) :
    h.frozen = false := by
  cases frozen : h.frozen with
  | false => rfl
  | true => exact absurd (sound frozen) (by simp [writable])

namespace Disk

/-- Every archive on a disk has a property, and so has what its file holds without the log. -/
def Every (P : Archive → Prop) (d : Disk) : Prop :=
  ∀ id stored, d.stored? id = some stored → P stored.archive ∧ P stored.settled

/-- Every file with an archive has an id that was given out. -/
def Counted (d : Disk) : Prop := ∀ id stored, d.stored? id = some stored → id < d.nextFile

/-- The archive is without tables, or can be taken from a file, with or without its log. -/
def Shows (d : Disk) (a : Archive) : Prop :=
  a = {} ∨ ∃ id stored, d.stored? id = some stored ∧ (a = stored.archive ∨ a = stored.settled)

/-- One thing that becomes of the archives on a disk. An archive moves along a relation;
what is in a file that may be lost can be replaced by what another archive moves to. -/
inductive Change (R : Archive → Archive → Prop) (lost : FileId → Prop) (d : Disk) : Disk → Prop
  /-- Only what is in files counts, and the ids of files. -/
  | around {d' : Disk} (contents : d'.contents = d.contents) (ids : d'.nextFile = d.nextFile) :
      Change R lost d d'
  | add (stored : StoredArchive) (archive : stored.archive = {}) (settled : stored.settled = {}) :
      Change R lost d (d.addFile (.archive stored)).2
  | move {id : FileId} {stored moved : StoredArchive} (before : d.stored? id = some stored)
      (archive : R stored.archive moved.archive)
      (settled : moved.settled = stored.settled ∨ moved.settled = moved.archive) :
      Change R lost d (d.setContent id (.archive moved))
  | replace {id : FileId} {stored moved : StoredArchive} {a : Archive} (gone : lost id)
      (before : d.stored? id = some stored) (shown : d.Shows a) (archive : R a moved.archive)
      (settled : moved.settled = stored.settled ∨ moved.settled = moved.archive) :
      Change R lost d (d.setContent id (.archive moved))

/-- What becomes of the archives on a disk, one change after the other. -/
def Changes (R : Archive → Archive → Prop) (lost : FileId → Prop) : Disk → Disk → Prop :=
  Relation.ReflTransGen (Change R lost)

variable {P : Archive → Prop} {R : Archive → Archive → Prop} {lost : FileId → Prop}
  {d d' d'' : Disk} {id : FileId} {stored moved : StoredArchive} {handle : Handle}

/-! ### Contents -/

theorem content?_setContent (d : Disk) (id : FileId) (content : Content) (other : FileId) :
    (d.setContent id content).content? other =
      if other = id then some content else d.content? other := by
  unfold content? setContent
  by_cases h : other = id
  · simp [h]
  · have hne : (id == other) = false := by simpa using Ne.symm h
    simp [hne, find?_filter_ne _ h, h]

theorem content?_addFile (d : Disk) (content : Content) (other : FileId) :
    (d.addFile content).2.content? other =
      if other = d.nextFile then some content else d.content? other := by
  unfold content? addFile
  by_cases h : other = d.nextFile
  · simp [h]
  · have hne : (d.nextFile == other) = false := by simpa using Ne.symm h
    simp [hne, h]

theorem stored?_congr (same : d'.contents = d.contents) (id : FileId) :
    d'.stored? id = d.stored? id := by
  rw [stored?, content?, same]
  rfl

theorem stored?_setStored (d : Disk) (id : FileId) (moved : StoredArchive) (other : FileId) :
    (d.setContent id (.archive moved)).stored? other =
      if other = id then some moved else d.stored? other := by
  rw [stored?, content?_setContent]
  by_cases h : other = id
  · simp [h]
  · simp [h, stored?]

theorem stored?_addFile (d : Disk) (stored : StoredArchive) (other : FileId) :
    (d.addFile (.archive stored)).2.stored? other =
      if other = d.nextFile then some stored else d.stored? other := by
  rw [stored?, content?_addFile]
  by_cases h : other = d.nextFile
  · simp [h]
  · simp [h, stored?]

/-- What a handle shows can be taken from the disk. -/
theorem shows_of_seen (hs : d.seen handle = .ok stored) : d.Shows stored.archive := by
  rw [Disk.seen] at hs
  cases hf : d.stored? handle.file with
  | none => simp [hf] at hs
  | some s =>
    simp only [hf] at hs
    split at hs
    · cases hs
      exact .inr ⟨_, s, hf, .inr rfl⟩
    · split at hs
      · cases hs
      · cases hs
        exact .inr ⟨_, _, hf, .inl rfl⟩

/-- What is not frozen shows the archive as it is stored. -/
theorem stored?_of_seen (hs : d.seen handle = .ok stored) (thawed : handle.frozen = false) :
    d.stored? handle.file = some stored := by
  rw [Disk.seen] at hs
  cases hf : d.stored? handle.file with
  | none => simp [hf] at hs
  | some s =>
    simp only [hf, thawed] at hs
    split at hs
    · contradiction
    · split at hs
      · cases hs
      · cases hs
        rfl

/-- What has rights on its file shows the archive in it, be there a log or not. -/
theorem seen_of_guarded (known : d.stored? handle.file = some stored)
    (thawed : handle.frozen = false) (guarded : handle.unguarded = false) :
    d.seen handle = .ok stored := by
  simp [seen, known, thawed, guarded]

theorem stored?_setContent (d : Disk) (id : FileId) (stored : StoredArchive) :
    (d.setContent id (.archive stored)).stored? id = some stored := by
  simp [stored?, content?, setContent]

theorem stored?_setArchive {id : FileId} (before : d.stored? id = some stored) (a : Archive) :
    (d.setArchive id a).stored? id = some (stored.change a) := by
  rw [setArchive, stored?_setContent, before, Option.getD_some]

/-- What is seen of a file after its archive was exchanged is stored as before. -/
theorem seen_setArchive (shown : d.seen handle = .ok stored) (thawed : handle.frozen = false)
    (a : Archive) : (d.setArchive handle.file a).seen handle = .ok (stored.change a) := by
  have before := stored?_of_seen shown thawed
  simp only [seen, before, thawed, Bool.false_eq_true, if_false] at shown
  simp only [seen, stored?_setArchive before, thawed, Bool.false_eq_true, if_false]
  by_cases logged : (handle.unguarded && stored.writesAhead) = true
  · rw [if_pos logged] at shown
    cases shown
  · exact if_neg logged

/-- Who is kept from a change of a file is so whatever archive it holds. -/
theorem isHeld_setArchive (before : d.stored? handle.file = some stored) (a : Archive) :
    (d.setArchive handle.file a).isHeld handle = d.isHeld handle := by
  have holding : (d.setArchive handle.file a).holding = d.holding := rfl
  simp only [isHeld, holding, stored?_setArchive before, before]
  rfl

/-! ### What changes keep -/

namespace Changes

theorem trans (first : Changes R lost d d') (second : Changes R lost d' d'') :
    Changes R lost d d'' :=
  Relation.ReflTransGen.trans first second

theorem around (contents : d'.contents = d.contents) (ids : d'.nextFile = d.nextFile) :
    Changes R lost d d' :=
  .single (.around contents ids)

theorem add (stored : StoredArchive) (archive : stored.archive = {})
    (settled : stored.settled = {}) : Changes R lost d (d.addFile (.archive stored)).2 :=
  .single (.add stored archive settled)

theorem move (before : d.stored? id = some stored) (archive : R stored.archive moved.archive)
    (settled : moved.settled = stored.settled ∨ moved.settled = moved.archive) :
    Changes R lost d (d.setContent id (.archive moved)) :=
  .single (.move before archive settled)

/-- What a change leaves is in the log, if there is one, and else in the file. -/
theorem settled_change (stored : StoredArchive) (a : Archive) :
    (stored.change a).settled = stored.settled ∨ (stored.change a).settled = a := by
  rw [StoredArchive.change]
  dsimp only
  split
  · exact .inl rfl
  · exact .inr rfl

theorem setArchive (before : d.stored? id = some stored) {b : Archive}
    (moves : R stored.archive b) : Changes R lost d (d.setArchive id b) := by
  rw [Disk.setArchive, before]
  exact move before moves (settled_change stored b)

theorem replaceArchive (gone : lost id) (before : d.stored? id = some stored) {a b : Archive}
    (shown : d.Shows a) (moves : R a b) : Changes R lost d (d.setArchive id b) := by
  rw [Disk.setArchive, before]
  exact .single (.replace gone before shown moves (settled_change stored b))

/-- A property that archives without tables have and that the relation keeps is one of
every archive, if it was before. -/
theorem every (h : Changes R lost d d') (blank : P {}) (keeps : ∀ a b, R a b → P a → P b)
    (before : d.Every P) : d'.Every P := by
  induction h with
  | refl => exact before
  | @tail d d' _ change ih =>
    -- What is put in a file has the property, if what it comes from had it.
    have put {id : FileId} {stored moved : StoredArchive} {a : Archive}
        (known : d.stored? id = some stored) (ha : P a)
        (archive : R a moved.archive)
        (settled : moved.settled = stored.settled ∨ moved.settled = moved.archive) :
        P moved.archive ∧ P moved.settled := by
      have new := keeps _ _ archive ha
      refine ⟨new, ?_⟩
      rcases settled with same | same
      · rw [same]
        exact (ih _ _ known).2
      · rw [same]
        exact new
    intro other s hs
    cases change with
    | around contents =>
      rw [stored?_congr contents] at hs
      exact ih other s hs
    | add new archive settled =>
      rw [stored?_addFile] at hs
      split at hs
      · cases hs
        rw [archive, settled]
        exact ⟨blank, blank⟩
      · exact ih other s hs
    | move known archive settled =>
      rw [stored?_setStored] at hs
      split at hs
      · cases hs
        exact put known (ih _ _ known).1 archive settled
      · exact ih other s hs
    | @replace _ _ _ a _ known shown archive settled =>
      rw [stored?_setStored] at hs
      split at hs
      · cases hs
        refine put known ?_ archive settled
        obtain rfl | ⟨id, origin, horigin, rfl | rfl⟩ := shown
        · exact blank
        · exact (ih id origin horigin).1
        · exact (ih id origin horigin).2
      · exact ih other s hs

/-- No change puts an archive in a file whose id was not given out. -/
theorem counted (h : Changes R lost d d') (before : d.Counted) : d'.Counted := by
  induction h with
  | refl => exact before
  | @tail d d' _ change ih =>
    intro other s hs
    cases change with
    | around contents ids =>
      rw [stored?_congr contents] at hs
      rw [ids]
      exact ih other s hs
    | add =>
      rw [stored?_addFile] at hs
      split at hs
      · next same =>
        rw [same]
        exact Nat.lt_succ_self _
      · exact Nat.lt_succ_of_lt (ih other s hs)
    | move known =>
      rw [stored?_setStored] at hs
      split at hs
      · next same =>
        rw [same]
        exact ih _ _ known
      · exact ih other s hs
    | replace _ known =>
      rw [stored?_setStored] at hs
      split at hs
      · next same =>
        rw [same]
        exact ih _ _ known
      · exact ih other s hs

/-- A file that is not lost goes on with its archive, along the relation. -/
theorem follows (h : Changes R lost d d') (refl : ∀ a, R a a)
    (trans : ∀ a b c, R a b → R b c → R a c) (counted : d.Counted) (spared : ¬ lost id)
    (before : d.stored? id = some stored) :
    ∃ after, d'.stored? id = some after ∧ R stored.archive after.archive := by
  induction h with
  | refl => exact ⟨stored, before, refl _⟩
  | @tail d d' earlier change ih =>
    obtain ⟨s, hs, moves⟩ := ih
    cases change with
    | around contents =>
      rw [stored?_congr contents]
      exact ⟨s, hs, moves⟩
    | add =>
      -- The new file has an id of its own.
      have old := Changes.counted earlier counted _ _ hs
      rw [stored?_addFile, if_neg (Nat.ne_of_lt old)]
      exact ⟨s, hs, moves⟩
    | @move other _ next known archive =>
      rw [stored?_setStored]
      split
      · next same =>
        subst same
        obtain rfl := Option.some.inj (hs.symm.trans known)
        exact ⟨next, rfl, trans _ _ _ moves archive⟩
      · exact ⟨s, hs, moves⟩
    | @replace other _ _ _ gone =>
      have others : id ≠ other := fun same => spared (same ▸ gone)
      rw [stored?_setStored, if_neg others]
      exact ⟨s, hs, moves⟩

end Changes

/-! ### Opening and closing files -/

theorem changes_setNode (d : Disk) (place : List String) (node : Node) :
    Changes R lost d (d.setNode place node) :=
  .around rfl rfl

theorem changes_use (d : Disk) (handle : Handle) : Changes R lost d (d.use handle).2 := by
  rw [Disk.use]
  dsimp only
  split
  · exact .refl
  · exact .around rfl rfl

theorem changes_openNameless (d : Disk) (l : Location) :
    Changes R lost d (d.openNameless l).2 := by
  have made : Changes R lost d (d.addFile (.archive { nameless := true })).2 := .add _ rfl rfl
  rw [Disk.openNameless]
  dsimp only
  split
  · split
    · exact .around rfl rfl
    · exact made.trans (.around rfl rfl)
  · exact made

theorem changes_openNamed {path : String} {l : Location}
    (hd : d.openNamed path l = .ok (handle, d')) : Changes R lost d d' := by
  rw [Disk.openNamed] at hd
  dsimp only at hd
  split at hd
  · cases hd
  · split at hd
    · cases hd
      exact changes_use _ _
    · cases hd
    · split at hd
      · cases hd
        have made : Changes R lost d (d.addFile (.archive {})).2 := .add _ rfl rfl
        exact (made.trans (changes_setNode _ _ _)).trans (changes_use _ _)
      · cases hd

theorem changes_openFile {path : String} (hd : d.openFile path = .ok (handle, d')) :
    Changes R lost d d' := by
  rw [Disk.openFile] at hd
  split at hd
  · cases hd
  · split at hd
    · cases hd
    · next l _ =>
      split at hd
      · have opened : Changes R lost d (d.openNameless l).2 := changes_openNameless d l
        rw [Except.ok.inj hd] at opened
        exact opened
      · exact changes_openNamed hd

/-- In memory nothing is frozen. -/
theorem frozen_openNameless (d : Disk) (l : Location) :
    (d.openNameless l).1.frozen = false := by
  rw [Disk.openNameless]
  dsimp only
  split
  · split <;> rfl
  · rfl

theorem sound_of_openNamed {path : String} {l : Location}
    (hd : d.openNamed path l = .ok (handle, d')) : handle.Sound := by
  have readable (frozen : l.frozen = true) : (decide (l.mode = .readOnly) || l.frozen) = true := by
    rw [frozen, Bool.or_true]
  rw [Disk.openNamed] at hd
  dsimp only at hd
  split at hd
  · cases hd
  · split at hd
    · cases hd
      exact readable
    · cases hd
    · split at hd
      · cases hd
        exact readable
      · cases hd

/-- Every handle that is opened is sound. -/
theorem sound_of_openFile {path : String} (hd : d.openFile path = .ok (handle, d')) :
    handle.Sound := by
  rw [Disk.openFile] at hd
  split at hd
  · cases hd
  · split at hd
    · cases hd
    · next l _ =>
      split at hd
      · have thawed := frozen_openNameless d l
        rw [Except.ok.inj hd] at thawed
        intro frozen
        rw [thawed] at frozen
        cases frozen
      · exact sound_of_openNamed hd

section Reflexive

variable (refl : ∀ a, R a a)

include refl

theorem changes_settle (d : Disk) (id : FileId) : Changes R lost d (d.settle id) := by
  rw [Disk.settle]
  split
  · next stored hs => exact .move hs (refl _) (.inr rfl)
  · exact .refl

theorem changes_closeFile (d : Disk) (handle : Handle) : Changes R lost d (d.closeFile handle) := by
  rw [Disk.closeFile]
  split
  · exact .refl
  · dsimp only
    split
    · exact .around rfl rfl
    · refine Changes.trans ?_ (changes_settle refl _ _)
      exact .around rfl rfl

theorem changes_release (d : Disk) : Changes R lost d d.release := by
  rw [Disk.release]
  split
  · exact .refl
  · dsimp only
    split
    · exact .around rfl rfl
    · refine Changes.trans ?_ (changes_closeFile refl _ _)
      exact .around rfl rfl

theorem changes_writeAhead (hd : d.writeAhead handle = .ok d') : Changes R lost d d' := by
  rw [Disk.writeAhead] at hd
  split at hd
  · cases hd
  · next stored hs =>
    split at hd
    · cases hd
      exact .refl
    · next guarded =>
      split at hd
      · cases hd
      · split at hd
        · cases hd
          exact .refl
        · split at hd
          · cases hd
          · cases hd
            simp only [Bool.or_eq_true, not_or, Bool.not_eq_true] at guarded
            exact .move (stored?_of_seen hs guarded.1.2) (refl _) (.inl rfl)

/-- A copy replaces what its target holds, unless that is what is copied. -/
theorem changes_copyArchive {origin : StoredArchive} {target : FileId}
    (shown : d.Shows origin.archive)
    (h : lost target ∨ d.stored? target = some origin) :
    Changes R lost d (d.copyArchive origin target) := by
  rw [Disk.copyArchive]
  split
  · next stored known =>
    rcases h with gone | own
    · exact .single (.replace gone known shown (refl _) (Changes.settled_change _ _))
    · obtain rfl := Option.some.inj (own.symm.trans known)
      exact .move known (refl _) (Changes.settled_change _ _)
  · exact .refl

theorem changes_hold (d : Disk) (path : String) : Changes R lost d (d.hold path).2 := by
  rw [Disk.hold]
  split
  · exact .refl
  · next handle opened hopened =>
    have step : Changes R lost d opened := changes_openFile hopened
    split
    · exact step.trans (changes_closeFile refl _ _)
    · split
      · exact step.trans (changes_closeFile refl _ _)
      · exact (step.trans (changes_release refl _)).trans (.around rfl rfl)

end Reflexive

/-- What is frozen gets no tables if its handle is sound. -/
theorem changes_makeTables (prepare : ∀ a, R a a.prepare) (sound : handle.Sound)
    (hd : d.makeTables handle = .ok d') : Changes R lost d d' := by
  rw [Disk.makeTables] at hd
  split at hd
  · cases hd
  · next stored hs =>
    split at hd
    · cases hd
      exact .refl
    · split at hd
      · cases hd
      · next unhindered =>
        cases hd
        have thawed : handle.frozen = false := by
          cases hf : handle.frozen with
          | false => rfl
          | true => simp [changeFault?, sound hf] at unhindered
        exact .setArchive (stored?_of_seen hs thawed) (prepare _)

/-! ### Making directories -/

/-- Making directories changes the tree and nothing else. -/
theorem exists_nodes_createDirectory {steps : List String}
    (h : d.createDirectory steps = .ok d') : ∃ nodes, d' = { d with nodes } := by
  rw [createDirectory] at h
  split at h
  · cases h
  · split at h
    · cases h
    · cases h
    · dsimp only at h
      split at h
      · cases h
      · split at h
        · cases h
        · cases h
          exact ⟨_, rfl⟩

theorem exists_nodes_createAll (back : List String) (d : Disk) :
    ∃ nodes, (createAll back d).2 = { d with nodes } := by
  induction back with
  | nil => exact ⟨d.nodes, rfl⟩
  | cons s above ih =>
    rw [createAll]
    split
    · next made h => exact exists_nodes_createDirectory h
    · rcases hall : createAll above d with ⟨_ | fault, made⟩
      · rw [hall] at ih
        obtain ⟨nodes, rfl⟩ := ih
        dsimp only
        split
        · next after h =>
          obtain ⟨nodes', rfl⟩ := exists_nodes_createDirectory h
          exact ⟨nodes', rfl⟩
        · exact ⟨nodes, rfl⟩
      · rw [hall] at ih
        exact ih
    · exact ⟨d.nodes, rfl⟩

theorem exists_nodes_createDirectories (steps : List String) (d : Disk) :
    ∃ nodes, (d.createDirectories steps).2 = { d with nodes } := by
  rw [createDirectories]
  split
  · exact ⟨d.nodes, rfl⟩
  · split
    · exact ⟨d.nodes, rfl⟩
    · exact exists_nodes_createAll steps.reverse d

theorem changes_createDirectories (d : Disk) (steps : List String) :
    Changes R lost d (d.createDirectories steps).2 := by
  obtain ⟨nodes, made⟩ := exists_nodes_createDirectories steps d
  rw [made]
  exact .around rfl rfl

end Disk

end LocalizationMemory
