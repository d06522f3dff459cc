import LocalizationMemory.Proofs.Archive.Table
import LocalizationMemory.Proofs.Archive.Write
import LocalizationMemory.Proofs.Store

/-!
# Consistent archives

In a consistent archive the rows of every table are numbered, what has to be unique is
unique, and nothing refers to a row that is not there. The three writes keep an archive
consistent, and so does whatever else is done to an archive that was made today.

## Main definitions

* `Archive.Consistent` — all that holds of the tables of an archive
* `Archive.NotAfter` — nothing in an archive is of a later time

## Main results

* `Archive.Consistent.addMod`, `Archive.Consistent.addVersion`,
  `Archive.Consistent.putRenderings` — the writes keep an archive consistent
* `Archive.Consistent.invariant` — so does whatever is done to archives
* `Archive.NotAfter.invariant` — what is done at a time is of that time
-/

namespace LocalizationMemory.Archive

/-- The tables of today can be read. -/
theorem hasTables_of_current {a : Archive} (current : a.layout = .current) :
    a.layout.hasTables = true := by
  rw [current]
  rfl

/-- In the tables of today entries are told apart by files. -/
theorem hasFilePaths_of_current {a : Archive} (current : a.layout = .current) :
    a.layout.hasFilePaths = true := by
  rw [current]
  rfl

/-- What holds of the tables of an archive, taken together. -/
structure Consistent (a : Archive) : Prop where
  /-- There are no tables yet, or those of today. -/
  layout : a.layout = .blank ∨ a.layout = .current
  mods : a.mods.Numbered (·.id)
  aliases : a.aliases.Numbered (·.id)
  versions : a.versions.Numbered (·.id)
  entries : a.entries.Numbered (·.id)
  renderings : a.renderings.Numbered (·.id)
  modNames : a.mods.Unique (·.name)
  remoteIds : a.aliases.Unique (·.remoteId)
  hashes : a.versions.Unique (·.hash)
  /-- A file of a version has one entry for a key. -/
  keys : a.entries.Unique fun e => (e.versionId, e.file, e.key)
  /-- An entry has one rendering into a language. -/
  languages : a.renderings.Unique fun t => (t.entryId, t.language)
  modOfAlias : a.aliases.Refers (·.modId) (·.id) a.mods
  modOfVersion : a.versions.Refers (·.modId) (·.id) a.mods
  versionOfEntry : a.entries.Refers (·.versionId) (·.id) a.versions
  entryOfRendering : a.renderings.Refers (·.entryId) (·.id) a.entries
  trimmed : ∀ e ∈ a.entries.rows, Text.trim e.key = e.key

namespace Consistent

variable {a b : Archive} {now : Millis}

/-- An archive without a row is consistent. -/
theorem of_layout {layout : Layout} (h : layout = .blank ∨ layout = .current) :
    Consistent { layout } where
  layout := h
  mods := .empty
  aliases := .empty
  versions := .empty
  entries := .empty
  renderings := .empty
  modNames := .empty
  remoteIds := .empty
  hashes := .empty
  keys := .empty
  languages := .empty
  modOfAlias := .empty
  modOfVersion := .empty
  versionOfEntry := .empty
  entryOfRendering := .empty
  trimmed _ he := nomatch he

/-- If there are tables, they are those of today. -/
theorem layout_eq_current (h : a.Consistent) (tables : a.layout.hasTables = true) :
    a.layout = .current := by
  rcases h.layout with hl | hl
  · rw [hl] at tables
    cases tables
  · exact hl

/-- Rules play no part. -/
theorem withRules (h : a.Consistent) (rules : List InsertRule) :
    Consistent { a with rules } :=
  { h with }

/-- Tables are made where there are none. -/
theorem prepare_eq (h : a.Consistent) : a.prepare = { a with layout := .current } := by
  rw [Archive.prepare]
  rcases h.layout with hl | hl <;> simp [hl, Layout.prepared]

theorem prepare (h : a.Consistent) : a.prepare.Consistent := by
  rw [h.prepare_eq]
  exact { h with layout := .inr rfl }

/-! ### The inserts -/

theorem insertMod (h : a.Consistent) {name : String} (hb : a.insertMod name now = .ok b) :
    b.Consistent := by
  obtain ⟨-, rfl⟩ := insertMod_eq_ok_iff.mp hb
  -- What speaks of neither mods nor their ids is as before.
  exact { h with
    mods := h.mods.addUnless fun _ => rfl
    modNames := h.modNames.addUnless fun m _ same => by simpa using same
    modOfAlias := h.modOfAlias.addUnless_right
    modOfVersion := h.modOfVersion.addUnless_right }

theorem insertAlias (h : a.Consistent) {modId : RowId} {remoteId : String}
    (known : modId ∈ a.mods.rows.map (·.id)) (hb : a.insertAlias modId remoteId = .ok b) :
    b.Consistent := by
  obtain ⟨-, rfl⟩ := insertAlias_eq_ok_iff.mp hb
  exact { h with
    aliases := h.aliases.addUnless fun _ => rfl
    remoteIds := h.remoteIds.addUnless fun l _ same => by simpa using same
    modOfAlias := h.modOfAlias.addUnless known }

theorem insertVersion (h : a.Consistent) {modId : RowId} {hash : String}
    (hb : a.insertVersion modId hash now = .ok b) : b.Consistent := by
  obtain ⟨-, new, ⟨m, hm, rfl⟩, rfl⟩ := insertVersion_eq_ok_iff.mp hb
  -- A version is stored only if the search by its hash finds none.
  have unknown : ∀ v ∈ a.versions.rows, v.hash ≠ hash := by
    simpa [versionByHash?] using new
  have versions : Table.Numbered (·.id) (a.versions.add fun id => ⟨id, m.id, hash, now⟩) :=
    h.versions.add fun _ => rfl
  exact { h with
    versions
    hashes := h.hashes.add unknown
    modOfVersion := h.modOfVersion.add (List.mem_map_of_mem hm)
    versionOfEntry := h.versionOfEntry.add_right }

/-- A line can be stored in a version that is there, if its key has no blanks around it. -/
theorem insertEntry (h : a.Consistent) {versionId : RowId} {line : SourceLine}
    (known : versionId ∈ a.versions.rows.map (·.id)) (trimmed : Text.trim line.key = line.key)
    (hb : a.insertEntry versionId line = .ok b) : b.Consistent := by
  obtain ⟨-, rfl⟩ := insertEntry_eq_ok_iff.mp hb
  exact { h with
    entries := h.entries.addUnless fun _ => rfl
    keys := h.keys.addUnless fun e _ same => by
      simp only [Prod.mk.injEq] at same
      simp [inTheWay, same]
    versionOfEntry := h.versionOfEntry.addUnless known
    entryOfRendering := h.entryOfRendering.addUnless_right
    trimmed := fun e he => by
      rcases Table.mem_rows_addUnless he with he | rfl
      · exact h.trimmed e he
      · exact trimmed }

theorem insertEntries {versionId : RowId} {lines : List SourceLine}
    (trimmed : ∀ line ∈ lines, Text.trim line.key = line.key) {a : Archive}
    (h : a.Consistent) (known : versionId ∈ a.versions.rows.map (·.id))
    (hb : Archive.insertEntries versionId lines a = .ok b) : b.Consistent := by
  induction lines generalizing a with
  | nil =>
    rw [insertEntries_nil_eq_ok_iff.mp hb]
    exact h
  | cons line r ih =>
    obtain ⟨c, hc, hb⟩ := insertEntries_cons_eq_ok_iff.mp hb
    have step := h.insertEntry known (trimmed line List.mem_cons_self) hc
    -- A line is no version, so the version of the other lines stays known.
    obtain ⟨-, rfl⟩ := insertEntry_eq_ok_iff.mp hc
    exact ih (fun l hl => trimmed l (List.mem_cons_of_mem _ hl)) step known hb

theorem touchMod (h : a.Consistent) (modId : RowId) : (a.touchMod modId now).Consistent :=
  { h with
    mods := h.mods.updateWhere fun _ => rfl
    modNames := h.modNames.updateWhere fun _ => rfl
    modOfAlias := h.modOfAlias.updateWhere_right fun _ => rfl
    modOfVersion := h.modOfVersion.updateWhere_right fun _ => rfl }

theorem putRendering (h : a.Consistent) {language : String} {row : EntryRendering}
    (hb : a.putRendering language now row = .ok b) : b.Consistent := by
  obtain ⟨-, ⟨e, he, hid⟩, rfl⟩ := putRendering_eq_ok_iff.mp hb
  exact { h with
    renderings := h.renderings.upsert (fun _ => rfl) fun _ => rfl
    languages := h.languages.upsert (fun _ => rfl) fun t _ same => by
      simp only [Prod.mk.injEq] at same
      simp [translates, same]
    entryOfRendering := h.entryOfRendering.upsert (fun _ => rfl)
      (List.mem_map.mpr ⟨e, he, hid⟩) }

/-! ### The writes -/

/-- Making a mod keeps an archive consistent. -/
theorem addMod (h : a.Consistent) {name : String} {remoteId : Option String} {id : RowId}
    (hb : a.addMod name remoteId now = .ok (id, b)) : b.Consistent := by
  obtain ⟨c, m, hc, found, -, last⟩ := addMod_eq_ok_iff.mp hb
  have step := h.insertMod hc
  cases hr : remoteId.filter (!Text.allBlank ·) with
  | none =>
    simp only [hr] at last
    rw [last]
    exact step
  | some remoteId =>
    simp only [hr] at last
    exact step.insertAlias (List.mem_map_of_mem (List.mem_of_find?_eq_some found)) last

/-- Storing a version with its entries keeps an archive consistent. -/
theorem addVersion (h : a.Consistent) {modId : RowId} {files : List SourceFile} {s : Snapshot}
    (hb : a.addVersion modId files now = .ok (s, b)) : b.Consistent := by
  obtain ⟨c, d, hc, -, hd, -, rfl⟩ := addVersion_eq_ok_iff.mp hb
  -- Keys are stored in normal form, which has no blanks around it.
  have trimmed : ∀ line ∈ sourceLines files, Text.trim line.key = line.key := by
    intro line hline
    obtain ⟨f, -, hline⟩ := List.mem_flatMap.mp hline
    obtain ⟨p, -, rfl⟩ := List.mem_map.mp hline
    exact Key.trim_normalize _
  -- The entries are given the id that was used last, which is that of the version.
  have known : c.versions.lastId ∈ c.versions.rows.map (·.id) := by
    obtain ⟨-, -, -, rfl⟩ := insertVersion_eq_ok_iff.mp hc
    exact List.mem_map.mpr ⟨_, Table.mem_rows_add.mpr (.inr rfl), rfl⟩
  exact (insertEntries trimmed (h.insertVersion hc) known hd).touchMod modId

/-- Storing a batch of renderings keeps an archive consistent. -/
theorem putRenderings {language : String} {rows : List EntryRendering} {a : Archive}
    (h : a.Consistent) (hb : Archive.putRenderings language now rows a = .ok b) :
    b.Consistent := by
  induction rows generalizing a with
  | nil =>
    rw [putRenderings_nil_eq_ok_iff.mp hb]
    exact h
  | cons row r ih =>
    obtain ⟨c, hc, hb⟩ := putRenderings_cons_eq_ok_iff.mp hb
    exact ih (h.putRendering hc) hb

end Consistent

/-- Consistency outlives whatever is done to archives. -/
theorem Consistent.invariant (now : Millis) : Invariant Consistent now where
  blank := Consistent.of_layout (.inl rfl)
  prepare _ h := h.prepare
  writes :=
    { refl := fun _ h => h
      trans := fun _ _ _ first second h => second (first h)
      addMod := fun _ _ _ _ _ hb h => h.addMod hb
      addVersion := fun _ _ _ _ _ hb h => h.addVersion hb
      putRenderings := fun _ _ _ _ hb h => h.putRenderings hb
      insertMod := fun _ _ _ hb h => h.insertMod hb
      insertVersion := fun _ _ _ _ hb h => h.insertVersion hb
      rules := fun _ rules h => h.withRules rules }

/-! ### Times -/

/-- No version and no rendering is of a later time. -/
structure NotAfter (now : Millis) (a : Archive) : Prop where
  versions : ∀ v ∈ a.versions.rows, v.createdAt ≤ now
  renderings : ∀ t ∈ a.renderings.rows, t.translatedAt ≤ now

namespace NotAfter

variable {a b : Archive} {now later : Millis}

theorem mono (h : a.NotAfter now) (le : now ≤ later) : a.NotAfter later where
  versions v hv := Int.le_trans (h.versions v hv) le
  renderings t ht := Int.le_trans (h.renderings t ht) le

theorem insertVersion (h : a.NotAfter now) {modId : RowId} {hash : String}
    (hb : a.insertVersion modId hash now = .ok b) : b.NotAfter now := by
  obtain ⟨-, -, -, rfl⟩ := insertVersion_eq_ok_iff.mp hb
  refine ⟨fun v hv => ?_, h.renderings⟩
  rcases Table.mem_rows_add.mp hv with hv | rfl
  · exact h.versions v hv
  · exact Int.le_refl now

theorem insertMod (h : a.NotAfter now) {name : String} (hb : a.insertMod name now = .ok b) :
    b.NotAfter now := by
  obtain ⟨-, rfl⟩ := insertMod_eq_ok_iff.mp hb
  exact ⟨h.versions, h.renderings⟩

theorem addMod (h : a.NotAfter now) {name : String} {remoteId : Option String} {id : RowId}
    (hb : a.addMod name remoteId now = .ok (id, b)) : b.NotAfter now := by
  obtain ⟨c, m, hc, -, -, last⟩ := addMod_eq_ok_iff.mp hb
  have step := h.insertMod hc
  split at last
  · rw [last]
    exact step
  · obtain ⟨-, rfl⟩ := insertAlias_eq_ok_iff.mp last
    exact ⟨step.versions, step.renderings⟩

theorem insertEntry (h : a.NotAfter now) {versionId : RowId} {line : SourceLine}
    (hb : a.insertEntry versionId line = .ok b) : b.NotAfter now := by
  obtain ⟨-, rfl⟩ := insertEntry_eq_ok_iff.mp hb
  exact ⟨h.versions, h.renderings⟩

theorem insertEntries {versionId : RowId} {lines : List SourceLine} {a : Archive}
    (h : a.NotAfter now) (hb : Archive.insertEntries versionId lines a = .ok b) :
    b.NotAfter now := by
  induction lines generalizing a with
  | nil =>
    rw [insertEntries_nil_eq_ok_iff.mp hb]
    exact h
  | cons line r ih =>
    obtain ⟨c, hc, hb⟩ := insertEntries_cons_eq_ok_iff.mp hb
    exact ih (h.insertEntry hc) hb

theorem addVersion (h : a.NotAfter now) {modId : RowId} {files : List SourceFile} {s : Snapshot}
    (hb : a.addVersion modId files now = .ok (s, b)) : b.NotAfter now := by
  obtain ⟨c, d, hc, -, hd, -, rfl⟩ := addVersion_eq_ok_iff.mp hb
  have step := (h.insertVersion hc).insertEntries hd
  exact ⟨step.versions, step.renderings⟩

theorem putRendering (h : a.NotAfter now) {language : String} {row : EntryRendering}
    (hb : a.putRendering language now row = .ok b) : b.NotAfter now := by
  obtain ⟨-, -, rfl⟩ := putRendering_eq_ok_iff.mp hb
  refine ⟨h.versions, fun t ht => ?_⟩
  rcases Table.mem_rows_upsert ht with ⟨s, hs, rfl | ⟨-, rfl⟩⟩ | rfl
  · exact h.renderings _ hs
  · exact Int.le_refl now
  · exact Int.le_refl now

theorem putRenderings {language : String} {rows : List EntryRendering} {a : Archive}
    (h : a.NotAfter now) (hb : Archive.putRenderings language now rows a = .ok b) :
    b.NotAfter now := by
  induction rows generalizing a with
  | nil =>
    rw [putRenderings_nil_eq_ok_iff.mp hb]
    exact h
  | cons row r ih =>
    obtain ⟨c, hc, hb⟩ := putRenderings_cons_eq_ok_iff.mp hb
    exact ih (h.putRendering hc) hb

end NotAfter

/-- Whatever is done at a time leaves nothing of a later time. -/
theorem NotAfter.invariant (now : Millis) : Invariant (NotAfter now) now where
  blank := ⟨fun _ hv => (nomatch hv), fun _ ht => (nomatch ht)⟩
  prepare a h := by
    rw [Archive.prepare]
    split
    · exact ⟨h.versions, h.renderings⟩
    · exact ⟨h.versions, h.renderings⟩
  writes :=
    { refl := fun _ h => h
      trans := fun _ _ _ first second h => second (first h)
      addMod := fun _ _ _ _ _ hb h => h.addMod hb
      addVersion := fun _ _ _ _ _ hb h => h.addVersion hb
      putRenderings := fun _ _ _ _ hb h => h.putRenderings hb
      insertMod := fun _ _ _ hb h => h.insertMod hb
      insertVersion := fun _ _ _ _ hb h => h.insertVersion hb
      rules := fun _ _ h => ⟨h.versions, h.renderings⟩ }

/-! ### Actions that succeed -/

section Ends

variable {a b : Archive} {access : Access} {modName language : String}
  {remoteId : Option String} {files : List SourceFile} {translator : Translator}
  {modId : RowId} {outcome : UpdateOutcome}

theorem Consistent.ensureNamedMod (h : a.Consistent)
    (ends : (Action.ensureNamedMod modName remoteId).Ends access a modId b) : b.Consistent :=
  ends.kept ((invariant access.now).writes.moves_ensureNamedMod _ _) h

theorem Consistent.update (h : a.Consistent)
    (ends : (Action.update modName remoteId files language translator).Ends access a outcome b) :
    b.Consistent :=
  ends.kept ((invariant access.now).writes.moves_update _ _ _ _ _) h

theorem NotAfter.ensureNamedMod (h : a.NotAfter access.now)
    (ends : (Action.ensureNamedMod modName remoteId).Ends access a modId b) :
    b.NotAfter access.now :=
  ends.kept ((invariant access.now).writes.moves_ensureNamedMod _ _) h

theorem NotAfter.update (h : a.NotAfter access.now)
    (ends : (Action.update modName remoteId files language translator).Ends access a outcome b) :
    b.NotAfter access.now :=
  ends.kept ((invariant access.now).writes.moves_update _ _ _ _ _) h

end Ends

end LocalizationMemory.Archive
