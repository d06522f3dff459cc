import Mathlib.Data.List.Pairwise
import LocalizationMemory.Archive.Maintenance
import LocalizationMemory.Proofs.Archive.History
import LocalizationMemory.Proofs.Reachability

/-!
# Archives with a past

What is made today is consistent, but an archive can have a past: it was made in the older
layout, where entries have no files, or entries were given other files by hand, or none.
What is read can rely on less, then, and it is kept by whatever is done. Ids tell versions
apart, and entries; names tell mods apart; an entry has one rendering into a language;
and a key occurs once in a file of a version, if it is in a file at all.

## Main definitions

* `Archive.Arises` — the archives that can arise, of today and of the older time
* `Archive.Sound` — what holds of the tables of all of them

## Main results

* `Archive.Reached.arises` — what is reached from a disk without an archive arises
* `Archive.Arises.sound` — what arises is sound
* `Archive.Sound.nodup_key_entriesOfFile` — a key occurs once in a file of a version
-/

namespace LocalizationMemory

/-! ### Tables -/

namespace Table

variable {ρ κ : Type} {t : Table ρ} {R : ρ → ρ → Prop}

/-- A relation between all rows is kept if a row is added only where it holds. -/
theorem pairwise_addUnless {inTheWay : ρ → Bool} {row : RowId → ρ} (h : t.rows.Pairwise R)
    (guarded : ∀ r ∈ t.rows, inTheWay r = false → R r (row t.nextId)) :
    (t.addUnless inTheWay row).rows.Pairwise R := by
  rw [rows_addUnless]
  split
  · exact h
  · next none =>
    rw [List.any_eq_true] at none
    refine List.pairwise_append.mpr ⟨h, List.pairwise_singleton _ _, fun r hr s hs => ?_⟩
    obtain rfl := List.mem_singleton.mp hs
    exact guarded r hr (Bool.eq_false_iff.mpr fun blocks => none ⟨r, hr, blocks⟩)

theorem map_rows_tableOf {α : Type} {row : RowId → α → ρ} {key : ρ → κ} {f : α → κ}
    (reads : ∀ id x, key (row id x) = f x) (values : List α) :
    (Archive.tableOf row values).rows.map key = values.map f := by
  rw [Archive.tableOf, List.map_map]
  refine List.ext_getElem (by simp) fun i h h' => ?_
  simp [reads]

/-- Rows under the ids from one on are numbered. -/
theorem numbered_tableOf {α : Type} {row : RowId → α → ρ} {id : ρ → RowId}
    (own : ∀ n x, id (row n x) = n) (values : List α) :
    Numbered id (Archive.tableOf row values) where
  nonneg := Int.natCast_nonneg _
  ascending := by
    refine List.pairwise_iff_getElem.mpr fun i j hi hj before => ?_
    simp only [Archive.tableOf, List.getElem_map, List.getElem_zipIdx, own]
    exact Int.add_lt_add_right (Int.ofNat_lt.mpr (by omega)) 1
  counted r hr := by
    obtain ⟨i, hi, rfl⟩ := List.getElem_of_mem hr
    have within : i < values.length := by simpa [Archive.tableOf] using hi
    simp only [Archive.tableOf, List.getElem_map, List.getElem_zipIdx, own, Nat.zero_add]
    exact ⟨Int.natCast_pos.mpr (Nat.succ_pos i), Int.ofNat_le.mpr within⟩

end Table

namespace Archive

variable {a b : Archive} {now : Millis}

/-! ### Entries of one file and key -/

/-- Entries of one version, file and key are the same way round. -/
theorem sameFileAndKey_symm {e f : EntryRow} (apart : sameFileAndKey e f = false) :
    sameFileAndKey f e = false := by
  simp only [sameFileAndKey] at *
  grind

theorem noDuplicates_iff {rows : List EntryRow} :
    noDuplicates rows = true ↔ rows.Pairwise fun e f => sameFileAndKey e f = false := by
  induction rows with
  | nil => simp [noDuplicates]
  | cons e r ih => simp [noDuplicates, ih]

/-- Entries that keys tell apart within versions are told apart within files. -/
theorem pairwise_of_keysPerVersion {t : Table EntryRow}
    (distinct : t.Unique fun e => (e.versionId, e.key)) :
    t.rows.Pairwise fun e f => sameFileAndKey e f = false := by
  refine (List.pairwise_map.mp distinct).imp fun {e f} differ => ?_
  simp only [ne_eq, Prod.mk.injEq, not_and] at differ
  simp only [sameFileAndKey, Bool.and_eq_false_imp]
  grind

/-! ### What holds of all archives -/

/-- What holds of the tables of every archive, whatever its past. -/
structure Sound (a : Archive) : Prop where
  versions : a.versions.Numbered (·.id)
  entries : a.entries.Numbered (·.id)
  modNames : a.mods.Unique (·.name)
  /-- An entry has one rendering into a language. -/
  languages : a.renderings.Unique fun t => (t.entryId, t.language)
  /-- A file of a version has one entry for a key. -/
  keys : a.entries.rows.Pairwise fun e f => sameFileAndKey e f = false
  /-- In the older layout a version has one entry for a key. -/
  olderKeys : a.layout.keysPerVersion = true → a.entries.Unique fun e => (e.versionId, e.key)

namespace Sound

theorem blank : Sound {} where
  versions := .empty
  entries := .empty
  modNames := .empty
  languages := .empty
  keys := .nil
  olderKeys _ := .empty

theorem ofOldRows {mods : List String} {versions : List (RowId × String × Millis)}
    {entries : List (RowId × String × String)} (names : mods.Nodup)
    (keys : (entries.map fun e => (e.1, e.2.1)).Nodup) :
    (Archive.ofOldRows mods versions entries).Sound := by
  have olderKeys : (Archive.ofOldRows mods versions entries).entries.Unique
      fun e => (e.versionId, e.key) := by
    rw [Table.Unique, Archive.ofOldRows, Table.map_rows_tableOf (f := fun e => (e.1, e.2.1))]
    · exact keys
    · exact fun _ _ => rfl
  exact
    { versions := by
        dsimp only [Archive.ofOldRows]
        exact Table.numbered_tableOf (fun _ _ => rfl) _
      entries := by
        dsimp only [Archive.ofOldRows]
        exact Table.numbered_tableOf (fun _ _ => rfl) _
      modNames := by
        rw [Table.Unique, Archive.ofOldRows, Table.map_rows_tableOf (f := id), List.map_id]
        · exact names
        · exact fun _ _ => rfl
      languages := .empty
      keys := pairwise_of_keysPerVersion olderKeys
      olderKeys := fun _ => olderKeys }

theorem prepare (h : a.Sound) : a.prepare.Sound := by
  rw [Archive.prepare]
  split
  · next older =>
    have all : { a.entries with rows := a.entries.rows.map ({ · with file := some "" }) } =
        a.entries.updateWhere (fun _ => true) ({ · with file := some "" }) := by
      simp [Table.updateWhere]
    -- All entries come into one file, where keys tell them apart as they did in versions.
    have olderKeys : Table.Unique (fun e => (e.versionId, e.key))
        (a.entries.updateWhere (fun _ => true) ({ · with file := some "" })) :=
      (h.olderKeys (by rw [older]; rfl)).updateWhere fun _ => rfl
    rw [all]
    exact { h with
      entries := h.entries.updateWhere fun _ => rfl
      keys := pairwise_of_keysPerVersion olderKeys
      olderKeys := fun _ => olderKeys }
  · next notOld =>
    refine { h with olderKeys := fun older => h.olderKeys ?_ }
    revert older notOld
    cases a.layout <;> simp [Layout.prepared, Layout.keysPerVersion]

theorem insertMod (h : a.Sound) {name : String} (hb : a.insertMod name now = .ok b) :
    b.Sound := by
  obtain ⟨-, rfl⟩ := insertMod_eq_ok_iff.mp hb
  exact { h with modNames := h.modNames.addUnless fun m _ same => by simpa using same }

theorem addMod (h : a.Sound) {name : String} {remoteId : Option String} {id : RowId}
    (hb : a.addMod name remoteId now = .ok (id, b)) : b.Sound := by
  obtain ⟨c, m, hc, -, -, last⟩ := addMod_eq_ok_iff.mp hb
  have step := h.insertMod hc
  split at last
  · rw [last]
    exact step
  · obtain ⟨-, rfl⟩ := insertAlias_eq_ok_iff.mp last
    exact { step with }

theorem insertVersion (h : a.Sound) {modId : RowId} {hash : String}
    (hb : a.insertVersion modId hash now = .ok b) : b.Sound := by
  obtain ⟨-, -, -, rfl⟩ := insertVersion_eq_ok_iff.mp hb
  have versions : Table.Numbered (·.id) (a.versions.add fun id => ⟨id, modId, hash, now⟩) :=
    h.versions.add fun _ => rfl
  exact { h with versions }

theorem insertEntry (h : a.Sound) {versionId : RowId} {line : SourceLine}
    (hb : a.insertEntry versionId line = .ok b) : b.Sound := by
  obtain ⟨-, rfl⟩ := insertEntry_eq_ok_iff.mp hb
  refine { h with
    entries := h.entries.addUnless fun _ => rfl
    keys := Table.pairwise_addUnless h.keys fun e _ free => ?_
    olderKeys := fun older => (h.olderKeys older).addUnless fun e _ same => ?_ }
  · simp only [inTheWay] at free
    simp only [sameFileAndKey]
    grind
  · have older : a.layout.keysPerVersion = true := older
    simp only [Prod.mk.injEq] at same
    simp [inTheWay, same, older]

theorem insertEntries {versionId : RowId} {lines : List SourceLine} {a : Archive} (h : a.Sound)
    (hb : Archive.insertEntries versionId lines a = .ok b) : b.Sound := by
  induction lines generalizing a with
  | nil =>
    rw [insertEntries_nil_eq_ok_iff.mp hb]
    exact h
  | cons line r ih =>
    obtain ⟨c, hc, hb⟩ := insertEntries_cons_eq_ok_iff.mp hb
    exact ih (h.insertEntry hc) hb

theorem addVersion (h : a.Sound) {modId : RowId} {files : List SourceFile} {s : Snapshot}
    (hb : a.addVersion modId files now = .ok (s, b)) : b.Sound := by
  obtain ⟨c, d, hc, -, hd, -, rfl⟩ := addVersion_eq_ok_iff.mp hb
  have step := (h.insertVersion hc).insertEntries hd
  exact { step with modNames := step.modNames.updateWhere fun _ => rfl }

theorem putRendering (h : a.Sound) {language : String} {row : EntryRendering}
    (hb : a.putRendering language now row = .ok b) : b.Sound := by
  obtain ⟨-, -, rfl⟩ := putRendering_eq_ok_iff.mp hb
  exact { h with
    languages := h.languages.upsert (fun _ => rfl) fun t _ same => by
      simp only [Prod.mk.injEq] at same
      simp [translates, same] }

theorem putRenderings {language : String} {rows : List EntryRendering} {a : Archive}
    (h : a.Sound) (hb : Archive.putRenderings language now rows a = .ok b) : b.Sound := by
  induction rows generalizing a with
  | nil =>
    rw [putRenderings_nil_eq_ok_iff.mp hb]
    exact h
  | cons row r ih =>
    obtain ⟨c, hc, hb⟩ := putRenderings_cons_eq_ok_iff.mp hb
    exact ih (h.putRendering hc) hb

/-- Entries that are given another file, or none, are checked for duplicates or have their keys
told apart by the older layout. -/
theorem assignFile (h : a.Sound) (paths : a.layout.hasFilePaths = true) {filter : EntryFilter}
    {file : Option String} {n : Nat} (hb : a.assignFile filter file = .ok (n, b)) : b.Sound := by
  have olderKeys : a.layout.keysPerVersion = true → Table.Unique (fun e => (e.versionId, e.key))
      (a.entries.updateWhere filter.selects ({ · with file })) :=
    fun older => (h.olderKeys older).updateWhere fun _ => rfl
  rw [Archive.assignFile] at hb
  split at hb
  · cases hb
  · next checked =>
    cases hb
    refine { h with entries := h.entries.updateWhere fun _ => rfl, keys := ?_, olderKeys }
    by_cases current : a.layout = .current
    · refine noDuplicates_iff.mp ?_
      simpa [current] using checked
    · refine pairwise_of_keysPerVersion (olderKeys ?_)
      revert paths current
      cases a.layout <;> simp [Layout.hasFilePaths, Layout.keysPerVersion]

/-- Version, file and key make an entry out that is in a file. -/
theorem entry_unique (h : a.Sound) {e e' : EntryRow} (he : e ∈ a.entries.rows)
    (he' : e' ∈ a.entries.rows) (version : e.versionId = e'.versionId) {file : String}
    (hfile : e.file = some file) (hfile' : e'.file = some file) (key : e.key = e'.key) :
    e = e' := by
  by_contra differ
  have : Std.Symm fun e f : EntryRow => sameFileAndKey e f = false :=
    ⟨fun _ _ => sameFileAndKey_symm⟩
  have apart := h.keys.forall he he' differ
  simp [sameFileAndKey, version, key, hfile, hfile'] at apart

/-- Within a file of a version the key tells the entries apart. -/
theorem nodup_key_entriesOfFile (h : a.Sound) (versionId : RowId) (file : String) :
    ((a.entriesOfFile versionId file).map (·.key)).Nodup := by
  have distinct : (a.entriesOfFile versionId file).Nodup :=
    ((h.entries.unique.of_map _).filter _).filter _
  refine List.Nodup.map_on (fun e he e' he' same => ?_) distinct
  obtain ⟨he, version, hfile⟩ := mem_entriesOfFile_iff.mp he
  obtain ⟨he', version', hfile'⟩ := mem_entriesOfFile_iff.mp he'
  exact h.entry_unique he he' (version.trans version'.symm) hfile hfile' same

end Sound

/-! ### How archives arise -/

/-- The archives that can arise: from a file without tables or one of the older layout, by making
the missing tables, by what is written, at any times and in any order, also amid rivals and under
rules, and by giving entries other files. -/
inductive Arises : Archive → Prop
  | blank : Arises {}
  | ofOldRows (mods : List String) (versions : List (RowId × String × Millis))
      (entries : List (RowId × String × String)) (names : mods.Nodup)
      (keys : (entries.map fun e => (e.1, e.2.1)).Nodup) :
      Arises (Archive.ofOldRows mods versions entries)
  | prepare {a : Archive} (before : Arises a) : Arises a.prepare
  | addMod {a b : Archive} {now : Millis} {name : String} {remoteId : Option String} {id : RowId}
      (before : Arises a) (hb : a.addMod name remoteId now = .ok (id, b)) : Arises b
  | addVersion {a b : Archive} {now : Millis} {modId : RowId} {files : List SourceFile}
      {s : Snapshot} (before : Arises a) (hb : a.addVersion modId files now = .ok (s, b)) :
      Arises b
  | putRenderings {a b : Archive} {now : Millis} {language : String} {rows : List EntryRendering}
      (before : Arises a) (hb : Archive.putRenderings language now rows a = .ok b) : Arises b
  | insertMod {a b : Archive} {now : Millis} {name : String} (before : Arises a)
      (hb : a.insertMod name now = .ok b) : Arises b
  | insertVersion {a b : Archive} {now : Millis} {modId : RowId} {hash : String}
      (before : Arises a) (hb : a.insertVersion modId hash now = .ok b) : Arises b
  | rules {a : Archive} (before : Arises a) (rules : List InsertRule) : Arises { a with rules }
  | assignFile {a b : Archive} {filter : EntryFilter} {file : Option String} {n : Nat}
      (before : Arises a) (paths : a.layout.hasFilePaths = true)
      (hb : a.assignFile filter file = .ok (n, b)) : Arises b

/-- What can arise is kept by whatever is done to archives. -/
theorem Arises.invariant (now : Millis) : Invariant Arises now where
  blank := .blank
  prepare _ h := h.prepare
  writes :=
    { refl := fun _ h => h
      trans := fun _ _ _ first second h => second (first h)
      addMod := fun _ _ _ _ _ hb h => h.addMod hb
      addVersion := fun _ _ _ _ _ hb h => h.addVersion hb
      putRenderings := fun _ _ _ _ hb h => h.putRenderings hb
      insertMod := fun _ _ _ hb h => h.insertMod hb
      insertVersion := fun _ _ _ _ hb h => h.insertVersion hb
      rules := fun _ rules h => h.rules rules }

/-- Whatever the clock does, what is reached from a disk without an archive arises. -/
theorem Reached.arises {tick : Millis → Millis → Prop} (h : a.Reached tick now) : a.Arises := by
  obtain ⟨d, id, reached, ha⟩ := h
  obtain ⟨stored, hs, rfl⟩ := Option.map_eq_some_iff.mp ha
  exact (reached.every (fun now => Arises.invariant now) (fun _ _ _ _ ha => ha) id stored hs).1

/-- What arises is sound. -/
theorem Arises.sound (h : a.Arises) : a.Sound := by
  induction h with
  | blank => exact .blank
  | ofOldRows _ _ _ names keys => exact .ofOldRows names keys
  | prepare _ ih => exact ih.prepare
  | addMod _ hb ih => exact ih.addMod hb
  | addVersion _ hb ih => exact ih.addVersion hb
  | putRenderings _ hb ih => exact ih.putRenderings hb
  | insertMod _ hb ih => exact ih.insertMod hb
  | insertVersion _ hb ih => exact ih.insertVersion hb
  | rules _ _ ih => exact { ih with }
  | assignFile _ paths hb ih => exact ih.assignFile paths hb

end Archive

end LocalizationMemory
