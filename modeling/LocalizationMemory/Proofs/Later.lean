import LocalizationMemory.Proofs.Archive.Growth
import LocalizationMemory.Proofs.Reachability

/-!
# What lasts in a file

Whatever stores and connections do, and however it ends, an archive in a file only grows,
as long as no other archive is copied over it. Its versions keep their entries, so keys
are resolved to the same entries and versions are reported with the same content ever
after; and a key that was given a rendering is never again read back without one.

## Main definitions

* `Disk.Spares` — what can be done at one time without copying an archive over a file
* `Disk.Later` — a disk after any number of such steps
* `Disk.Snapshots` — a disk after any number of snapshots

## Main results

* `Disk.Spares.changes` — one step changes the archive of the file along a relation that
  lasts
* `Disk.Reached.continues` — the archive of the file grows
* `Disk.Reached.keeps_versions` — its versions stay as they are
* `Disk.Reached.keeps_renderings` — its keys do not lose their renderings
-/

namespace LocalizationMemory

/-- What can be done to a disk at one time without copying another archive over that of a file:
no import into the file, and no export to it but of its own archive. Handles are sound, as all are
that are opened. -/
inductive Disk.Spares (id : FileId) (now : Millis) : Disk → Disk → Prop
  | operate (s : Store) (sound : s.Sound) (op : Operation) (d : Disk) :
      Spares id now d (s.operate now d op)
  | connect (s : Store) (d : Disk) : Spares id now d (s.connect now d).disk
  | storeExport (s : Store) (path : String) (d : Disk)
      (elsewhere : ∀ c d', s.Connects now d c d' → ¬ c.Replaces path d' id) :
      Spares id now d (s.exportTo now path d).disk
  | storeImport (s : Store) (path : String) (d : Disk)
      (elsewhere : ∀ c d', s.Connects now d c d' → c.handle.file ≠ id) :
      Spares id now d (s.importFrom now path d).disk
  | storeClose (s : Store) (d : Disk) : Spares id now d (s.close d).disk
  | storeDrop (s : Store) (d : Disk) : Spares id now d (s.drop d).disk
  | openPath (path : String) (wait : Nat) (d : Disk) :
      Spares id now d (Connection.openPath path wait d).disk
  | run (c : Connection) (sound : c.handle.Sound) (op : Operation) (d : Disk) :
      Spares id now d (c.run now op.action d).disk
  | runAt (path : String) (op : Operation) (d : Disk) :
      Spares id now d (Connection.runAt path now op.action d).disk
  | prepare (c : Connection) (sound : c.handle.Sound) (d : Disk) :
      Spares id now d (c.run now Action.prepare d).disk
  | exportTo (c : Connection) (path : String) (d : Disk) (elsewhere : ¬ c.Replaces path d id) :
      Spares id now d (c.exportTo path d).disk
  | importFrom (c : Connection) (path : String) (d : Disk) (elsewhere : c.handle.file ≠ id) :
      Spares id now d (c.importFrom now path d).disk
  | close (c : Connection) (d : Disk) : Spares id now d (c.close d)
  /-- A mod is made that a rival makes after it was looked up. -/
  | ensureModAmid (s : Store) (sound : s.Sound) (path name : String) (remoteId : Option String)
      (d : Disk) : Spares id now d (s.ensureModAmid now path name remoteId d).disk
  /-- A version is stored that a rival stores after it was looked up. -/
  | snapshotAmid (s : Store) (sound : s.Sound) (path : String) (modId : RowId)
      (files : List SourceFile) (d : Disk) :
      Spares id now d (s.snapshotAmid now path modId files d).disk
  /-- The rival takes a right on a file. -/
  | hold (path : String) (d : Disk) : Spares id now d (d.hold path).2
  /-- The rival gives its right back. -/
  | release (d : Disk) : Spares id now d d.release

/-- A disk after any number of steps, by any clock, that copy no archive over that of a file. -/
def Disk.Later (id : FileId) : Disk → Disk → Prop :=
  Relation.ReflTransGen fun d d' => ∃ now, Disk.Spares id now d d'

/-- A snapshot is taken, through a store or a connection, and succeeds or fails. -/
inductive Disk.TakesSnapshot (now : Millis) : Disk → Disk → Prop
  | store (s : Store) (sound : s.Sound) (modId : RowId) (files : List SourceFile) (d : Disk) :
      TakesSnapshot now d (s.operate now d (.snapshot modId files))
  | connection (c : Connection) (sound : c.handle.Sound) (modId : RowId)
      (files : List SourceFile) (d : Disk) :
      TakesSnapshot now d (c.run now (Operation.snapshot modId files).action d).disk

/-- A disk after any number of snapshots, by any clock. -/
def Disk.Snapshots : Disk → Disk → Prop :=
  Relation.ReflTransGen fun d d' => ∃ now, Disk.TakesSnapshot now d d'

variable {tick : Millis → Millis → Prop} {now : Millis} {d d' : Disk} {id : FileId}
  {R : Archive → Archive → Prop} {a : Archive}

/-! ### Steps and runs -/

/-- One step changes the archive of a file that is spared along a relation that lasts. -/
theorem Disk.Spares.changes (lasting : Lasting R now) (step : Disk.Spares id now d d') :
    Disk.Changes R (· ≠ id) d d' := by
  cases step with
  | operate s sound op =>
    exact lasting.changes_operate (fun _ _ connects => .inl (connects.sound sound)) op
  | connect s => exact lasting.changes_connect s
  | storeExport s path _ elsewhere =>
    refine lasting.changes_storeExport fun c d' connects other replaces same => ?_
    exact elsewhere c d' connects (same ▸ replaces)
  | storeImport s path _ elsewhere => exact lasting.changes_storeImport path elsewhere
  | storeClose s => exact lasting.changes_storeClose s
  | storeDrop s => exact lasting.changes_storeDrop s
  | openPath path wait => exact lasting.changes_openPath path wait
  | run c sound op => exact lasting.changes_runOperation op (.inl sound)
  | runAt path op => exact lasting.changes_runOperationAt op path
  | prepare c sound => exact lasting.changes_runPrepare now (.inl sound)
  | exportTo c path _ elsewhere =>
    exact lasting.changes_exportTo fun other replaces same => elsewhere (same ▸ replaces)
  | importFrom c path _ elsewhere => exact lasting.changes_importFrom path elsewhere
  | close c => exact Disk.changes_closeFile lasting.refl _ _
  | ensureModAmid s sound path name remoteId =>
    exact lasting.changes_ensureModAmid (fun _ _ connects => .inl (connects.sound sound)) path name
      remoteId
  | snapshotAmid s sound path modId files =>
    exact lasting.changes_snapshotAmid (fun _ _ connects => .inl (connects.sound sound)) path modId
      files
  | hold path => exact Disk.changes_hold lasting.refl _ _
  | release => exact Disk.changes_release lasting.refl _

/-- So does a whole run. -/
theorem Disk.Later.changes (lasting : ∀ now, Lasting R now) (later : Disk.Later id d d') :
    Disk.Changes R (· ≠ id) d d' := by
  induction later with
  | refl => exact .refl
  | tail _ step ih =>
    obtain ⟨now, step⟩ := step
    exact ih.trans (step.changes (lasting now))

/-- A snapshot gains the archive of its file a version at most. -/
theorem Disk.TakesSnapshot.changes (step : Disk.TakesSnapshot now d d') :
    Disk.Changes Archive.GainsVersions (· ≠ id) d d' := by
  cases step with
  | store s sound modId files =>
    exact Archive.GainsVersions.tolerant.changes_perform
      (fun _ _ connects => .inl (connects.sound sound))
      fun access _ => Archive.GainsVersions.moves_snapshot access modId files
  | connection c sound modId files =>
    refine Disk.changes_run (fun access _ => ?_) (.inl sound)
    exact .bind Archive.GainsVersions.trans
      (Archive.GainsVersions.moves_snapshotChecked access modId files)
      fun _ => Action.moves_pure Archive.GainsVersions.tolerant.refl _

theorem Disk.Snapshots.changes (later : Disk.Snapshots d d') :
    Disk.Changes Archive.GainsVersions (· ≠ id) d d' := by
  induction later with
  | refl => exact .refl
  | tail _ step ih =>
    obtain ⟨now, step⟩ := step
    exact ih.trans step.changes

/-- On a disk that is reached every file with an archive has an id that was given out. -/
theorem Disk.Reached.counted (h : Disk.Reached tick now d) : d.Counted := by
  have any (now : Millis) : Lasting (fun _ _ => True) now :=
    { refl := fun _ => trivial
      prepare := fun _ => trivial
      writes := by constructor <;> intros <;> trivial }
  induction h with
  | start now d empty =>
    intro id stored hs
    rw [empty id] at hs
    cases hs
  | @step _ later _ _ _ _ step ih => exact (step.changes (any later)).counted ih

/-- Where changes lead from a disk that is reached, the archive of a file that is spared is
related to what it was. -/
theorem Disk.Reached.follows (h : Disk.Reached tick now d) (refl : ∀ a, R a a)
    (trans : ∀ a b c, R a b → R b c → R a c) (changes : Disk.Changes R (· ≠ id) d d')
    (ha : d.archive? id = some a) : ∃ b, d'.archive? id = some b ∧ R a b := by
  obtain ⟨stored, hs, rfl⟩ := Option.map_eq_some_iff.mp ha
  obtain ⟨after, hs', related⟩ := changes.follows refl trans h.counted (by simp) hs
  exact ⟨after.archive, by simp [Disk.archive?, hs'], related⟩

/-- The archive of a file grows and stays consistent. -/
theorem Disk.Reached.continues (h : Disk.Reached tick now d) (later : Disk.Later id d d')
    (ha : d.archive? id = some a) : ∃ b, d'.archive? id = some b ∧ b.Consistent ∧ a.Grows b := by
  have lasting := Archive.Continues.lasting
  obtain ⟨b, hb, continues⟩ := h.follows (lasting now).refl (lasting now).writes.trans
    (later.changes lasting) ha
  exact ⟨b, hb, continues (Archive.Reached.isConsistent ⟨d, id, h, ha⟩)⟩

/-- What a store does after some operations comes later, for every file. -/
theorem Store.later_operateAll (s : Store) (sound : s.Sound) (ops more : List Operation) :
    Disk.Later id (s.operateAll ops) (s.operateAll (more ++ ops)) := by
  induction more with
  | nil => exact .refl
  | cons op more ih => exact ih.tail ⟨_, .operate s sound op _⟩

/-! ### Versions -/

/-- History is append-only: an archive grows, and a version that was stored keeps its row and
its entries, is resolved to the same entries and is reported with the same content, and
nothing else is reported under its id. -/
theorem Disk.Reached.keeps_versions (h : Disk.Reached tick now d) (later : Disk.Later id d d')
    (ha : d.archive? id = some a) :
    ∃ b, d'.archive? id = some b ∧ a.Grows b ∧ ∀ v ∈ a.versions.rows,
      b.versionWithId? v.id = some v ∧ b.entriesOf v.id = a.entriesOf v.id ∧
        (∀ file rawKey, b.resolve? v.id file rawKey = a.resolve? v.id file rawKey) ∧
        a.versionSummary v ∈ b.versionSummaries v.modId ∧
        ∀ s ∈ b.versionSummaries v.modId, s.version.id = v.id → s = a.versionSummary v := by
  obtain ⟨b, hb, consistent, grows⟩ := h.continues later ha
  refine ⟨b, hb, grows, fun v hv => ?_⟩
  have kept := grows.versions.subset hv
  refine ⟨grows.versionWithId? consistent hv, grows.snapshots v hv, grows.resolve? hv, ?_, ?_⟩
  · rw [← grows.versionSummary hv]
    exact Archive.mem_versionSummaries_iff.mpr ⟨v, kept, rfl, rfl⟩
  · intro s hs same
    obtain ⟨w, hw, -, rfl⟩ := Archive.mem_versionSummaries_iff.mp hs
    -- Ids tell versions apart.
    obtain rfl : w = v := consistent.versions.unique.eq_of_key_eq hw kept same
    exact grows.versionSummary hv

/-- After a mod and a version of it were stored, a rendering and a further version are, and the
first version is stored once more: it keeps its only entry. -/
theorem Disk.Reached.keeps_versions_of_snapshots :
    ∃ d d' a v, Disk.Reached (· ≤ ·) 2 d ∧ Disk.Later 0 d d' ∧ d.archive? 0 = some a ∧
      v ∈ a.versions.rows ∧ ∃ b, d'.archive? 0 = some b ∧ a.Grows b ∧
        b.versions.rows.length = 2 ∧ (b.entriesOf v.id).length = 1 ∧
          b.entriesOf v.id = a.entriesOf v.id ∧
            b.resolve? v.id "a.yml" "k" = a.resolve? v.id "a.yml" "k" := by
  let s : Store := { settings := {} }
  let ops : List Operation := [.snapshot 1 [⟨"a.yml", [⟨"k", none⟩], ["X"]⟩], .ensureMod "Alpha" none]
  let more : List Operation := [.snapshot 1 [⟨"a.yml", [⟨"k", none⟩], ["X"]⟩],
    .snapshot 1 [⟨"a.yml", [⟨"k", none⟩], ["Y"]⟩], .putRenderings "ko" [(1, "ko:X")]]
  have reached : Disk.Reached (· ≤ ·) 2 (s.operateAll ops) := s.reached_operateAll ops
  have later : Disk.Later 0 (s.operateAll ops) (s.operateAll (more ++ ops)) :=
    s.later_operateAll (fun _ ready => nomatch ready) ops more
  obtain ⟨a, ha, v, hv, one⟩ : ∃ a ∈ (s.operateAll ops).archive? 0, ∃ v ∈ a.versions.rows,
      (a.entriesOf v.id).length = 1 := by decide +kernel
  have two : ∀ b ∈ (s.operateAll (more ++ ops)).archive? 0, b.versions.rows.length = 2 := by
    decide +kernel
  obtain ⟨b, hb, grows, kept⟩ := reached.keeps_versions later ha
  obtain ⟨-, entries, resolved, -⟩ := kept v hv
  exact ⟨_, _, a, v, reached, later, ha, hv, b, hb, grows, two b hb, entries ▸ one, entries,
    resolved _ _⟩

/-! ### Renderings -/

/-- Keys do not lose their renderings. Whatever is done, a key of a file of a mod that has a
rendering, be it of an entry of an old version, is not read back without one; and as long as
only snapshots are taken, it is read back with the same one. -/
theorem Disk.Reached.keeps_renderings (h : Disk.Reached tick now d) (ha : d.archive? id = some a) :
    (∀ d' modName m path language key t, Disk.Later id d d' → a.mod? modName = some m →
      a.Renders m.id (baseName path) language key t →
        ∃ b, d'.archive? id = some b ∧ ∀ access entries c,
          (Action.archivedEntries modName path language).Ends access b entries c →
            ∀ e ∈ entries, e.key = key → e.rendering.isSome) ∧
    ∀ d', Disk.Snapshots d d' → ∃ b, d'.archive? id = some b ∧
      (∀ modId file language key,
        Archive.lastRendering? (b.renderingHistory modId file language) key =
          Archive.lastRendering? (a.renderingHistory modId file language) key) ∧
      ∀ modName m path language access entries c, a.mod? modName = some m →
        (Action.archivedEntries modName path language).Ends access b entries c →
          ∀ e ∈ entries, e.rendering =
            Archive.lastRendering? (a.renderingHistory m.id (baseName path) language) e.key := by
  have consistent : a.Consistent := Archive.Reached.isConsistent ⟨d, id, h, ha⟩
  constructor
  · intro d' modName m path language key t later hm ht
    obtain ⟨b, hb, consistent', grows⟩ := h.continues later ha
    refine ⟨b, hb, fun access entries c ends e he same => ?_⟩
    obtain ⟨u, hu⟩ := grows.exists_renders ht
    rw [grows.rendering_of_ends consistent' hm ends he, same, Option.isSome_iff_ne_none]
    intro none
    exact (Archive.lastRendering?_eq_none_iff consistent').mp none u hu
  · intro d' later
    have tolerant := Archive.GainsVersions.tolerant
    obtain ⟨b, hb, gains⟩ := h.follows tolerant.refl Archive.GainsVersions.trans later.changes ha
    obtain ⟨⟨consistent', grows⟩, -⟩ := gains consistent
    refine ⟨b, hb, gains.lastRendering? consistent, ?_⟩
    intro modName m path language access entries c hm ends e he
    rw [grows.rendering_of_ends consistent' hm ends he]
    exact gains.lastRendering? consistent _ _ _ _

/-- A key that has a rendering goes with one version and comes back with another text in the
next: it is read back with the rendering that it had. -/
theorem Disk.Reached.keeps_renderings_of_snapshots :
    ∃ d d' a, Disk.Reached (· ≤ ·) 3 d ∧ Disk.Later 0 d d' ∧ Disk.Snapshots d d' ∧
      d.archive? 0 = some a ∧
      Archive.lastRendering? (a.renderingHistory 1 (baseName "a.yml") "ko") "k" = some "ko:X" ∧
      ∃ b c entries, d'.archive? 0 = some b ∧
        (Action.archivedEntries "Alpha" "a.yml" "ko").Ends { now := 6 } b entries c ∧
        (∃ e ∈ entries, e.key = "k") ∧ (∀ e ∈ entries, e.key = "k" → e.rendering.isSome) ∧
        ∀ e ∈ entries, e.rendering =
          Archive.lastRendering? (a.renderingHistory 1 (baseName "a.yml") "ko") e.key := by
  let s : Store := { settings := {} }
  let ops : List Operation := [.putRenderings "ko" [(1, "ko:X")],
    .snapshot 1 [⟨"a.yml", [⟨"k", none⟩], ["X"]⟩], .ensureMod "Alpha" none]
  let more : List Operation := [.snapshot 1 [⟨"a.yml", [⟨"k", none⟩], ["Z"]⟩],
    .snapshot 1 [⟨"a.yml", [⟨"j", none⟩], ["Y"]⟩]]
  have sound : s.Sound := fun _ ready => nomatch ready
  have reached : Disk.Reached (· ≤ ·) 3 (s.operateAll ops) := s.reached_operateAll ops
  have later : Disk.Later 0 (s.operateAll ops) (s.operateAll (more ++ ops)) :=
    s.later_operateAll sound ops more
  have snapshots : Disk.Snapshots (s.operateAll ops) (s.operateAll (more ++ ops)) :=
    .tail (.single ⟨4, .store s sound 1 _ _⟩) ⟨5, .store s sound 1 _ _⟩
  obtain ⟨a, ha, m, hm, one, rendered⟩ : ∃ a ∈ (s.operateAll ops).archive? 0,
      ∃ m ∈ a.mod? "Alpha", m.id = 1 ∧
        Archive.lastRendering? (a.renderingHistory 1 (baseName "a.yml") "ko") "k" =
          some "ko:X" := by decide +kernel
  obtain ⟨b, hb, listed, succeeds⟩ : ∃ b ∈ (s.operateAll (more ++ ops)).archive? 0,
      (∃ e ∈ b.archivedEntries "Alpha" "a.yml" "ko", e.key = "k") ∧
        (Action.archivedEntries "Alpha" "a.yml" "ko" { now := 6 } b).result.isOk = true := by
    decide +kernel
  obtain ⟨entries, ends⟩ := Action.exists_ends_of_isOk succeeds
  have consistent : a.Consistent := Archive.Reached.isConsistent ⟨_, 0, reached, ha⟩
  obtain ⟨t, ht, -⟩ := (Archive.lastRendering?_eq_some_iff consistent).mp rendered
  obtain ⟨kept, same⟩ := reached.keeps_renderings ha
  obtain ⟨b', hb', some⟩ := kept _ "Alpha" m "a.yml" "ko" "k" t later hm (one ▸ ht)
  obtain ⟨b'', hb'', -, attached⟩ := same _ snapshots
  obtain rfl := Option.some.inj (hb.symm.trans hb')
  obtain rfl := Option.some.inj (hb.symm.trans hb'')
  refine ⟨_, _, a, reached, later, snapshots, ha, rendered, b, _, entries, hb, ends, ?_,
    some _ _ _ ends, one ▸ attached "Alpha" m "a.yml" "ko" _ _ _ hm ends⟩
  have consistent' : b.Consistent := (reached.continues later ha).elim fun c hc => by
    obtain rfl := Option.some.inj (hb.symm.trans hc.1)
    exact hc.2.1
  obtain ⟨-, rfl, -⟩ := (Action.ends_archivedEntries_iff consistent').mp ends
  exact listed

end LocalizationMemory
