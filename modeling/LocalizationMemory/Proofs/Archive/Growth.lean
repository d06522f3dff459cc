import LocalizationMemory.Archive.Resolution
import LocalizationMemory.Proofs.Archive.Snapshot

/-!
# Archives only grow

No operation takes anything out of an archive. Mods keep their ids and names, aliases
and versions stay as they are, and a rendering stays that of its entry into its
language; only its text and its time can change. Entries are stored together with their
version, so a version that is there gets none, and all that is read of it stays the same.

## Main definitions

* `Archive.Grows` — an archive has all that another has, and no more entries of its versions
* `Archive.Continues` — a consistent archive grows and stays consistent
* `Archive.GainsVersions` — and it does so without a change of its renderings

## Main results

* `Archive.Continues.lasting` — whatever is done to an archive, it grows
* `Archive.Grows.resolve?`, `Archive.Grows.versionSummary` — what is read of a version
  stays the same
* `Archive.Grows.exists_renders` — a key that has a rendering keeps one
* `Archive.GainsVersions.lastRendering?` — snapshots change no text of a key
-/

namespace LocalizationMemory.Archive

/-- The rows of an archive come first in another, but for what may change of them: the time
of a mod, and text and time of a rendering. No version has got more entries. -/
structure Grows (a b : Archive) : Prop where
  layout : a.layout = .current → b.layout = .current
  mods : a.mods.rows.map (fun m => (m.id, m.name)) <+: b.mods.rows.map fun m => (m.id, m.name)
  aliases : a.aliases.rows <+: b.aliases.rows
  versions : a.versions.rows <+: b.versions.rows
  entries : a.entries.rows <+: b.entries.rows
  snapshots : ∀ v ∈ a.versions.rows, b.entriesOf v.id = a.entriesOf v.id
  renderings : a.renderings.rows.map (fun t => (t.id, t.entryId, t.language)) <+:
    b.renderings.rows.map fun t => (t.id, t.entryId, t.language)

/-- If an archive is consistent, another is so too and has grown from it. -/
def Continues (a b : Archive) : Prop := a.Consistent → b.Consistent ∧ a.Grows b

variable {a b c : Archive} {now : Millis}

/-! ### What is read of a version -/

/-- What is read of a version is read of its entries. -/
theorem resolve?_congr {versionId : RowId} (same : b.entriesOf versionId = a.entriesOf versionId)
    (file rawKey : String) : b.resolve? versionId file rawKey = a.resolve? versionId file rawKey := by
  have candidates : b.candidates versionId = a.candidates versionId := by
    funext lookup
    rw [Archive.candidates, Archive.candidates, same]
  have answers : b.firstMatch? versionId = a.firstMatch? versionId := by
    funext lookup
    rw [firstMatch?, firstMatch?, candidates]
  rw [Archive.resolve?, Archive.resolve?, answers]

theorem mem_versionSummaries_iff {modId : RowId} {s : VersionSummary} :
    s ∈ a.versionSummaries modId ↔
      ∃ v ∈ a.versions.rows, v.modId = modId ∧ a.versionSummary v = s := by
  simp [versionSummaries, versionsOf, mem_sortBy, and_assoc]

theorem versionSummary_congr {v : VersionRow} (same : b.entriesOf v.id = a.entriesOf v.id) :
    b.versionSummary v = a.versionSummary v := by
  rw [Archive.versionSummary, Archive.versionSummary, same]

/-! ### Every write lets an archive grow -/

namespace Grows

theorem refl (a : Archive) : a.Grows a where
  layout current := current
  mods := List.prefix_rfl
  aliases := List.prefix_rfl
  versions := List.prefix_rfl
  entries := List.prefix_rfl
  snapshots _ _ := rfl
  renderings := List.prefix_rfl

theorem trans (first : a.Grows b) (second : b.Grows c) : a.Grows c where
  layout current := second.layout (first.layout current)
  mods := first.mods.trans second.mods
  aliases := first.aliases.trans second.aliases
  versions := first.versions.trans second.versions
  entries := first.entries.trans second.entries
  snapshots v hv := (second.snapshots v (first.versions.subset hv)).trans (first.snapshots v hv)
  renderings := first.renderings.trans second.renderings

theorem withRules (a : Archive) (rules : List InsertRule) : a.Grows { a with rules } :=
  { refl a with }

theorem prepare (h : a.Consistent) : a.Grows a.prepare := by
  rw [h.prepare_eq]
  exact { refl a with layout := fun _ => rfl }

theorem insertMod {name : String} (hb : a.insertMod name now = .ok b) : a.Grows b := by
  obtain ⟨-, rfl⟩ := insertMod_eq_ok_iff.mp hb
  exact { refl a with mods := Table.prefix_rows_addUnless.map _ }

theorem insertAlias {modId : RowId} {remoteId : String}
    (hb : a.insertAlias modId remoteId = .ok b) : a.Grows b := by
  obtain ⟨-, rfl⟩ := insertAlias_eq_ok_iff.mp hb
  exact { refl a with aliases := Table.prefix_rows_addUnless }

theorem addMod {name : String} {remoteId : Option String} {id : RowId}
    (hb : a.addMod name remoteId now = .ok (id, b)) : a.Grows b := by
  obtain ⟨c, m, hc, -, -, last⟩ := addMod_eq_ok_iff.mp hb
  split at last
  · rw [last]
    exact insertMod hc
  · exact (insertMod hc).trans (insertAlias last)

theorem insertVersion {modId : RowId} {hash : String}
    (hb : a.insertVersion modId hash now = .ok b) : a.Grows b := by
  obtain ⟨-, -, -, rfl⟩ := insertVersion_eq_ok_iff.mp hb
  exact { refl a with versions := Table.prefix_rows_add }

/-- A version gets its entries when it is stored, and later ones none. -/
theorem addVersion (h : a.Consistent) {modId : RowId} {files : List SourceFile} {s : Snapshot}
    (hb : a.addVersion modId files now = .ok (s, b)) : a.Grows b := by
  obtain ⟨-, newId, -, versions, ⟨new, news, entries, -⟩, frame⟩ :=
    exists_newEntries_addVersion h hb
  have layout : b.layout = a.layout := by rw [frame]
  have aliases : b.aliases = a.aliases := by rw [frame]
  have renderings : b.renderings = a.renderings := by rw [frame]
  have mods : b.mods = a.mods.updateWhere (·.id == modId) ({ · with lastUpdated := now }) := by
    rw [frame]
  refine
    { layout := fun current => layout.trans current
      mods := mods ▸ Table.prefix_map_rows_updateWhere fun _ => rfl
      aliases := aliases ▸ List.prefix_rfl
      versions := versions ▸ List.prefix_append _ _
      entries := entries ▸ List.prefix_append _ _
      snapshots := fun v hv => ?_
      renderings := renderings ▸ List.prefix_rfl }
  -- The new entries are of the version that was not there.
  have older : v.id ≠ s.versionId := by
    rw [newId]
    exact Int.ne_of_lt (h.versions.lt_nextId hv)
  have none : new.filter (·.versionId == v.id) = [] := by
    apply List.filter_eq_nil_iff.mpr
    intro e he same
    exact older ((eq_of_beq same).symm.trans (news.ofVersion e he))
  rw [entriesOf, entriesOf, entries, List.filter_append, none, List.append_nil]

theorem putRendering {language : String} {row : EntryRendering}
    (hb : a.putRendering language now row = .ok b) : a.Grows b := by
  obtain ⟨-, -, rfl⟩ := putRendering_eq_ok_iff.mp hb
  exact { refl a with renderings := Table.prefix_map_rows_upsert fun _ => rfl }

theorem putRenderings {language : String} {rows : List EntryRendering} {a : Archive}
    (hb : Archive.putRenderings language now rows a = .ok b) : a.Grows b := by
  induction rows generalizing a with
  | nil =>
    rw [putRenderings_nil_eq_ok_iff.mp hb]
    exact refl a
  | cons row r ih =>
    obtain ⟨c, hc, hb⟩ := putRenderings_cons_eq_ok_iff.mp hb
    exact (putRendering hc).trans (ih hb)

/-! ### What is read stays the same -/

variable (grows : a.Grows b)

include grows

theorem resolve? {v : VersionRow} (hv : v ∈ a.versions.rows) (file rawKey : String) :
    b.resolve? v.id file rawKey = a.resolve? v.id file rawKey :=
  resolve?_congr (grows.snapshots v hv) file rawKey

theorem versionSummary {v : VersionRow} (hv : v ∈ a.versions.rows) :
    b.versionSummary v = a.versionSummary v :=
  versionSummary_congr (grows.snapshots v hv)

/-- A version is still the one with its id. -/
theorem versionWithId? (h : b.Consistent) {v : VersionRow} (hv : v ∈ a.versions.rows) :
    b.versionWithId? v.id = some v :=
  (versionWithId?_eq_some_iff h).mpr ⟨grows.versions.subset hv, rfl⟩

theorem versionByHash? (h : b.Consistent) {v : VersionRow} {hash : String}
    (hv : a.versionByHash? hash = some v) : b.versionByHash? hash = some v := by
  have same : v.hash = hash := by simpa using List.find?_some hv
  have mem := List.mem_of_find?_eq_some hv
  exact h.hashes.find?_eq_some_iff.mpr ⟨grows.versions.subset mem, same⟩

/-- A mod is still found by its name, under its id. -/
theorem mod? (h : b.Consistent) {m : ModRow} {name : String} (hm : a.mod? name = some m) :
    ∃ m', b.mod? name = some m' ∧ m'.id = m.id := by
  have named : m.name = name := by simpa using List.find?_some hm
  have kept : (m.id, m.name) ∈ b.mods.rows.map fun m => (m.id, m.name) :=
    grows.mods.subset (List.mem_map_of_mem (List.mem_of_find?_eq_some hm))
  obtain ⟨m', hm', same⟩ := List.mem_map.mp kept
  obtain ⟨id, name'⟩ := Prod.mk.inj same
  exact ⟨m', h.modNames.find?_eq_some_iff.mpr ⟨hm', name'.trans named⟩, id⟩

/-- A mod keeps its name. -/
theorem name_eq (h : b.Consistent) {m m' : ModRow} (hm : m ∈ a.mods.rows) (hm' : m' ∈ b.mods.rows)
    (same : m'.id = m.id) : m'.name = m.name := by
  have kept : (m.id, m.name) ∈ b.mods.rows.map fun m => (m.id, m.name) :=
    grows.mods.subset (List.mem_map_of_mem hm)
  obtain ⟨m'', hm'', kept⟩ := List.mem_map.mp kept
  obtain ⟨id, name⟩ := Prod.mk.inj kept
  obtain rfl : m'' = m' := h.mods.unique.eq_of_key_eq hm'' hm' (id.trans same.symm)
  exact name

/-- A rendering stays that of its entry into its language. -/
theorem exists_rendering {t : RenderingRow} (ht : t ∈ a.renderings.rows) :
    ∃ u ∈ b.renderings.rows, u.entryId = t.entryId ∧ u.language = t.language := by
  have kept : (t.id, t.entryId, t.language) ∈
      b.renderings.rows.map fun t => (t.id, t.entryId, t.language) :=
    grows.renderings.subset (List.mem_map_of_mem ht)
  obtain ⟨u, hu, same⟩ := List.mem_map.mp kept
  obtain ⟨-, entry, into⟩ : u.id = t.id ∧ u.entryId = t.entryId ∧ u.language = t.language := by
    simpa using same
  exact ⟨u, hu, entry, into⟩

/-- What is read back of a key is its last rendering in the files of the mod that had the name
before. -/
theorem rendering_of_ends (h : b.Consistent) {m : ModRow} {access : Access}
    {modName path language : String} {entries : List ArchivedEntry} {left : Archive}
    (hm : a.mod? modName = some m)
    (ends : (Action.archivedEntries modName path language).Ends access b entries left)
    {e : ArchivedEntry} (he : e ∈ entries) :
    e.rendering = lastRendering? (b.renderingHistory m.id (baseName path) language) e.key := by
  obtain ⟨n, hn, read⟩ := Action.exists_mod_of_ends_archivedEntries h ends he
  obtain ⟨n', hn', id⟩ := grows.mod? h hm
  obtain rfl := Option.some.inj (hn'.symm.trans hn)
  rw [read, id]

theorem inFile {modId : RowId} {file : String} {e : EntryRow} (he : a.InFile modId file e) :
    b.InFile modId file e := by
  obtain ⟨v, hv, id, ofMod⟩ := he.version
  exact ⟨grows.entries.subset he.mem, ⟨v, grows.versions.subset hv, id, ofMod⟩, he.file⟩

/-- What is in an archive is in the files of a mod that it was in before. -/
theorem inFile_of_mem (ha : a.Consistent) (hb : b.Consistent) {modId : RowId} {file : String}
    {e : EntryRow} (he : e ∈ a.entries.rows) (later : b.InFile modId file e) :
    a.InFile modId file e := by
  obtain ⟨v, hv, id, ofMod⟩ := later.version
  obtain ⟨v', hv', id'⟩ := List.mem_map.mp (ha.versionOfEntry e he)
  have same : v' = v :=
    hb.versions.unique.eq_of_key_eq (grows.versions.subset hv') hv (id'.trans id.symm)
  subst same
  exact ⟨he, ⟨v', hv', id', ofMod⟩, later.file⟩

/-- A key that has a rendering keeps one. -/
theorem exists_renders {modId : RowId} {file language key : String} {t : RenderingRow}
    (ht : a.Renders modId file language key t) : ∃ u, b.Renders modId file language key u := by
  obtain ⟨e, he, hkey, id⟩ := ht.entry
  obtain ⟨u, hu, entry, language⟩ := grows.exists_rendering ht.mem
  exact ⟨u, hu, language.trans ht.into, e, grows.inFile he, hkey, id.trans entry.symm⟩

/-- If the renderings are the same, they are those of the same keys. -/
theorem renders_iff (ha : a.Consistent) (hb : b.Consistent)
    (same : b.renderings.rows = a.renderings.rows) {modId : RowId} {file language key : String}
    (t : RenderingRow) :
    a.Renders modId file language key t ↔ b.Renders modId file language key t := by
  constructor
  · intro ht
    obtain ⟨e, he, rest⟩ := ht.entry
    exact ⟨same ▸ ht.mem, ht.into, e, grows.inFile he, rest⟩
  · intro ht
    have mem : t ∈ a.renderings.rows := same ▸ ht.mem
    obtain ⟨e, he, hkey, id⟩ := ht.entry
    -- The entry of a rendering was there when the rendering was.
    obtain ⟨e', he', id'⟩ := List.mem_map.mp (ha.entryOfRendering t mem)
    have entry : e' = e :=
      hb.entries.unique.eq_of_key_eq (grows.entries.subset he') he.mem (id'.trans id.symm)
    subst entry
    exact ⟨mem, ht.into, e', grows.inFile_of_mem ha hb he' he, hkey, id⟩

end Grows

/-! ### Whatever is done to an archive -/

/-- Whatever is done to an archive, it grows. -/
theorem Continues.lasting (now : Millis) : Lasting Continues now := by
  have invariant := Consistent.invariant now
  exact
    { refl := fun a h => ⟨h, .refl a⟩
      prepare := fun a h => ⟨h.prepare, .prepare h⟩
      writes :=
        { refl := fun a h => ⟨h, .refl a⟩
          trans := fun a b c first second h =>
            have step := first h
            have last := second step.1
            ⟨last.1, step.2.trans last.2⟩
          addMod := fun _ _ _ _ _ hb h => ⟨h.addMod hb, .addMod hb⟩
          addVersion := fun _ _ _ _ _ hb h => ⟨h.addVersion hb, .addVersion h hb⟩
          putRenderings := fun _ _ _ _ hb h => ⟨h.putRenderings hb, .putRenderings hb⟩
          insertMod := fun _ _ _ hb h => ⟨h.insertMod hb, .insertMod hb⟩
          insertVersion := fun _ _ _ _ hb h => ⟨h.insertVersion hb, .insertVersion hb⟩
          rules := fun a rules h => ⟨h.withRules rules, .withRules a rules⟩ } }

/-- If an archive is consistent, another is so too, has grown from it and has no rendering
that it has not. -/
def GainsVersions (a b : Archive) : Prop :=
  a.Consistent → (b.Consistent ∧ a.Grows b) ∧ b.renderings.rows = a.renderings.rows

namespace GainsVersions

theorem trans (a b c : Archive) (first : a.GainsVersions b) (second : b.GainsVersions c) :
    a.GainsVersions c := by
  intro h
  obtain ⟨step, renderings⟩ := first h
  obtain ⟨last, renderings'⟩ := second step.1
  exact ⟨⟨last.1, step.2.trans last.2⟩, renderings'.trans renderings⟩

theorem tolerant : Tolerant GainsVersions where
  refl a h := ⟨⟨h, .refl a⟩, rfl⟩
  prepare a h := by
    refine ⟨⟨h.prepare, .prepare h⟩, ?_⟩
    rw [h.prepare_eq]

theorem addVersion {now : Millis} {modId : RowId} {files : List SourceFile} {s : Snapshot}
    (hb : a.addVersion modId files now = .ok (s, b)) : a.GainsVersions b := by
  intro h
  refine ⟨⟨h.addVersion hb, .addVersion h hb⟩, ?_⟩
  rw [addVersion_frame hb]

/-- A snapshot leaves every rendering as it is. -/
theorem moves_snapshot (access : Access) (modId : RowId) (files : List SourceFile) :
    (Action.snapshot modId files).Moves GainsVersions access :=
  Action.moves_snapshot tolerant.refl trans fun _ _ _ hb => addVersion hb

theorem moves_snapshotChecked (access : Access) (modId : RowId) (files : List SourceFile) :
    (Action.snapshotChecked modId files).Moves GainsVersions access :=
  Action.moves_snapshotChecked tolerant.refl trans fun _ _ _ hb => addVersion hb

/-- No text of a key changes with a version that is gained. -/
theorem lastRendering? (gains : a.GainsVersions b) (ha : a.Consistent) (modId : RowId)
    (file language key : String) :
    Archive.lastRendering? (b.renderingHistory modId file language) key =
      Archive.lastRendering? (a.renderingHistory modId file language) key := by
  obtain ⟨⟨hb, grows⟩, same⟩ := gains ha
  exact (lastRendering?_congr ha hb fun t => grows.renders_iff ha hb same t).symm

end GainsVersions

end LocalizationMemory.Archive
