import LocalizationMemory.Archive.History
import LocalizationMemory.Proofs.Archive.Consistency
import LocalizationMemory.Proofs.Sorting

/-!
# What is read back

The newest version of a mod and the newest rendering of a key are the greatest elements
of two orders, each by time and then by id. In a consistent archive ids tell rows apart,
so both are characterized by the rows alone, without a word on how they are sorted.

## Main definitions

* `EntryRow.content` — the file, the key and the text of an entry
* `Archive.IsNewest` — the version is the newest of a mod
* `Archive.InFile` — the entry is of a file of a mod, in whatever version
* `Archive.Renders` — the rendering is of a key of a file of a mod

## Main results

* `Archive.latestVersion?_eq_some_iff` — the newest version that is read
* `Archive.lastRendering?_eq_some_iff`, `Archive.lastRendering?_eq_none_iff` — the last
  rendering that is read
* `Action.ends_archivedEntries_iff` — how reading a file back ends
-/

namespace LocalizationMemory

/-- The file, the key and the text of an entry. -/
def EntryRow.content (e : EntryRow) : Option String × String × String := (e.file, e.key, e.text)

/-- The file, the key and the text that the entry of a line has. -/
def SourceLine.content (line : SourceLine) : Option String × String × String :=
  (some line.file, line.key, line.text)

theorem EntryRow.content_eq_iff {e : EntryRow} {line : SourceLine} :
    e.content = line.content ↔ e.file = some line.file ∧ e.key = line.key ∧ e.text = line.text := by
  simp [content, SourceLine.content]

namespace Archive

variable {a : Archive} {modId : RowId} {file language key : String}

/-! ### The newest version -/

theorem notOlder_trans (u v w : VersionRow) (huv : notOlder u v = true)
    (hvw : notOlder v w = true) : notOlder u w = true := by
  simp only [notOlder, decide_eq_true_eq] at huv hvw ⊢
  grind

theorem notOlder_total (v w : VersionRow) : notOlder v w = true ∨ notOlder w v = true := by
  simp only [notOlder, decide_eq_true_eq]
  grind

theorem notOlder_refl (v : VersionRow) : notOlder v v = true :=
  (notOlder_total v v).elim id id

/-- Versions of which neither is older have one id. -/
theorem id_eq_of_notOlder {v w : VersionRow} (hvw : notOlder v w = true)
    (hwv : notOlder w v = true) : v.id = w.id := by
  simp only [notOlder, decide_eq_true_eq] at hvw hwv
  grind

/-- The version is of a mod, and none of the mod is newer. -/
structure IsNewest (a : Archive) (modId : RowId) (v : VersionRow) : Prop where
  mem : v ∈ a.versions.rows
  ofMod : v.modId = modId
  newest : ∀ w ∈ a.versions.rows, w.modId = modId → notOlder v w = true

theorem latestVersion?_eq_some_iff (ids : a.versions.Unique (·.id)) {v : VersionRow} :
    a.latestVersion? modId = some v ↔ a.IsNewest modId v := by
  -- Ids tell versions apart, so of two versions one is older.
  have antisymm : ∀ v ∈ a.versions.rows.filter (·.modId == modId),
      ∀ w ∈ a.versions.rows.filter (·.modId == modId),
        notOlder v w = true → notOlder w v = true → v = w := by
    intro v hv w hw hvw hwv
    exact ids.eq_of_key_eq (List.mem_of_mem_filter hv) (List.mem_of_mem_filter hw)
      (id_eq_of_notOlder hvw hwv)
  rw [latestVersion?, versionsOf,
    head?_sortBy_eq_some_iff notOlder_trans notOlder_total antisymm]
  simp only [List.mem_filter, beq_iff_eq, and_imp]
  constructor
  · rintro ⟨⟨mem, ofMod⟩, newest⟩
    exact ⟨mem, ofMod, newest⟩
  · rintro ⟨mem, ofMod, newest⟩
    exact ⟨⟨mem, ofMod⟩, newest⟩

/-- The newest version is one. -/
theorem IsNewest.unique (h : a.Consistent) {v w : VersionRow} (hv : a.IsNewest modId v)
    (hw : a.IsNewest modId w) : v = w :=
  h.versions.unique.eq_of_key_eq hv.mem hw.mem
    (id_eq_of_notOlder (hv.newest w hw.mem hw.ofMod) (hw.newest v hv.mem hv.ofMod))

/-! ### The newest rendering -/

theorem notNewer_trans (t u w : RenderingRow) (htu : notNewer t u = true)
    (huw : notNewer u w = true) : notNewer t w = true := by
  simp only [notNewer, decide_eq_true_eq] at htu huw ⊢
  grind

theorem notNewer_total (t u : RenderingRow) : notNewer t u = true ∨ notNewer u t = true := by
  simp only [notNewer, decide_eq_true_eq]
  grind

theorem notNewer_refl (t : RenderingRow) : notNewer t t = true :=
  (notNewer_total t t).elim id id

/-- Renderings of which neither is newer have one id. -/
theorem id_eq_of_notNewer {t u : RenderingRow} (htu : notNewer t u = true)
    (hut : notNewer u t = true) : t.id = u.id := by
  simp only [notNewer, decide_eq_true_eq] at htu hut
  grind

/-- The entry is of a file of a mod, in whatever version. -/
structure InFile (a : Archive) (modId : RowId) (file : String) (e : EntryRow) : Prop where
  mem : e ∈ a.entries.rows
  version : ∃ v ∈ a.versions.rows, v.id = e.versionId ∧ v.modId = modId
  file : e.file = some file

/-- The rendering is into a language, of an entry of a file of a mod that has a key. -/
structure Renders (a : Archive) (modId : RowId) (file language key : String)
    (t : RenderingRow) : Prop where
  mem : t ∈ a.renderings.rows
  into : t.language = language
  entry : ∃ e, a.InFile modId file e ∧ e.key = key ∧ e.id = t.entryId

theorem entryWithId?_eq_some_iff (h : a.Consistent) {id : RowId} {e : EntryRow} :
    a.entryWithId? id = some e ↔ e ∈ a.entries.rows ∧ e.id = id :=
  h.entries.unique.find?_eq_some_iff

theorem versionWithId?_eq_some_iff (h : a.Consistent) {id : RowId} {v : VersionRow} :
    a.versionWithId? id = some v ↔ v ∈ a.versions.rows ∧ v.id = id :=
  h.versions.unique.find?_eq_some_iff

theorem keyOfRendering?_eq_some_iff (h : a.Consistent) {t : RenderingRow} :
    a.keyOfRendering? modId file t = some key ↔
      ∃ e, a.InFile modId file e ∧ e.key = key ∧ e.id = t.entryId := by
  rw [keyOfRendering?]
  simp only [Option.bind_eq_bind, Option.bind_eq_some_iff, entryWithId?_eq_some_iff h,
    versionWithId?_eq_some_iff h, Option.ite_none_right_eq_some, Option.some.injEq]
  constructor
  · rintro ⟨e, ⟨mem, id⟩, v, ⟨hv, hid⟩, ⟨ofMod, file⟩, rfl⟩
    exact ⟨e, ⟨mem, ⟨v, hv, hid, ofMod⟩, file⟩, rfl, id⟩
  · rintro ⟨e, ⟨mem, ⟨v, hv, hid, ofMod⟩, file⟩, rfl, id⟩
    exact ⟨e, ⟨mem, id⟩, v, ⟨hv, hid⟩, ⟨ofMod, file⟩, rfl⟩

/-- The last rendering in a history is that of the greatest rendering of the key. -/
theorem lastRendering?_renderingHistory :
    lastRendering? (a.renderingHistory modId file language) key =
      ((sortBy notNewer (a.renderings.rows.filter (·.language == language))).reverse.find?
        fun t => a.keyOfRendering? modId file t == some key).map (·.text) := by
  rw [lastRendering?, renderingHistory, ← List.filterMap_reverse, List.find?_filterMap,
    Option.map_bind]
  -- The history leaves out renderings of other files; searched from its end, it gives what
  -- the renderings themselves give. How they are sorted does not matter here.
  generalize (sortBy notNewer (a.renderings.rows.filter (·.language == language))).reverse = l
  induction l with
  | nil => rfl
  | cons t r ih =>
    cases hk : a.keyOfRendering? modId file t with
    | none => simpa [hk] using ih
    | some k =>
      by_cases same : k = key
      · simp [hk, same]
      · simpa [hk, same] using ih

/-- The last rendering of a key that is read is that of its newest rendering. -/
theorem lastRendering?_eq_some_iff (h : a.Consistent) {text : String} :
    lastRendering? (a.renderingHistory modId file language) key = some text ↔
      ∃ t, a.Renders modId file language key t ∧
        (∀ u, a.Renders modId file language key u → notNewer u t = true) ∧ t.text = text := by
  have antisymm : ∀ t ∈ a.renderings.rows.filter (·.language == language),
      ∀ u ∈ a.renderings.rows.filter (·.language == language),
        notNewer t u = true → notNewer u t = true → t = u := by
    intro t ht u hu htu hut
    exact h.renderings.unique.eq_of_key_eq (List.mem_of_mem_filter ht)
      (List.mem_of_mem_filter hu) (id_eq_of_notNewer htu hut)
  simp only [lastRendering?_renderingHistory, Option.map_eq_some_iff,
    find?_reverse_sortBy_eq_some_iff notNewer_trans notNewer_total antisymm, List.mem_filter,
    beq_iff_eq, keyOfRendering?_eq_some_iff h]
  apply exists_congr
  intro t
  constructor
  · rintro ⟨⟨⟨mem, into⟩, entry, newest⟩, rfl⟩
    exact ⟨⟨mem, into, entry⟩, fun u hu => newest u ⟨hu.mem, hu.into⟩ hu.entry, rfl⟩
  · rintro ⟨⟨mem, into, entry⟩, newest, rfl⟩
    exact ⟨⟨⟨mem, into⟩, entry, fun u hu entry => newest u ⟨hu.1, hu.2, entry⟩⟩, rfl⟩

/-- No rendering of a key is read exactly if there is none. -/
theorem lastRendering?_eq_none_iff (h : a.Consistent) :
    lastRendering? (a.renderingHistory modId file language) key = none ↔
      ∀ t, ¬ a.Renders modId file language key t := by
  simp only [lastRendering?_renderingHistory, Option.map_eq_none_iff, List.find?_eq_none,
    List.mem_reverse, mem_sortBy, List.mem_filter, beq_iff_eq, keyOfRendering?_eq_some_iff h]
  constructor
  · exact fun none t ht => none t ⟨ht.mem, ht.into⟩ ht.entry
  · exact fun none t ht entry => none t ⟨ht.1, ht.2, entry⟩

/-- The key has one last rendering if its renderings are the same in two archives. -/
theorem lastRendering?_congr {b : Archive} (ha : a.Consistent) (hb : b.Consistent)
    (same : ∀ t, a.Renders modId file language key t ↔ b.Renders modId file language key t) :
    lastRendering? (a.renderingHistory modId file language) key =
      lastRendering? (b.renderingHistory modId file language) key := by
  apply Option.ext
  intro text
  rw [lastRendering?_eq_some_iff ha, lastRendering?_eq_some_iff hb]
  simp only [same]

/-! ### Entries of a version -/

@[simp] theorem mem_entriesOf_iff {versionId : RowId} {e : EntryRow} :
    e ∈ a.entriesOf versionId ↔ e ∈ a.entries.rows ∧ e.versionId = versionId := by
  simp [entriesOf]

@[simp] theorem mem_entriesOfFile_iff {versionId : RowId} {e : EntryRow} :
    e ∈ a.entriesOfFile versionId file ↔
      e ∈ a.entries.rows ∧ e.versionId = versionId ∧ e.file = some file := by
  simp [entriesOfFile, and_assoc]

/-- In a consistent archive version, file and key make an entry out. -/
theorem Consistent.entry_unique (h : a.Consistent) {e e' : EntryRow} (he : e ∈ a.entries.rows)
    (he' : e' ∈ a.entries.rows) (version : e.versionId = e'.versionId) (file : e.file = e'.file)
    (key : e.key = e'.key) : e = e' :=
  h.keys.eq_of_key_eq he he' (by rw [version, file, key])

/-- Within a file of a version the key tells the entries apart. -/
theorem Consistent.nodup_key_entriesOfFile (h : a.Consistent) (versionId : RowId)
    (file : String) : ((a.entriesOfFile versionId file).map (·.key)).Nodup := by
  have distinct : (a.entriesOfFile versionId file).Nodup :=
    (h.keys.of_map _).filter _ |>.filter _
  refine List.Nodup.map_on (fun e he e' he' same => ?_) distinct
  obtain ⟨he, version, hfile⟩ := mem_entriesOfFile_iff.mp he
  obtain ⟨he', version', hfile'⟩ := mem_entriesOfFile_iff.mp he'
  exact h.entry_unique he he' (version.trans version'.symm) (hfile.trans hfile'.symm) same

/-! ### The newest version by the name of its mod -/

theorem latestVersionNamed?_eq_some_iff (h : a.Consistent) {modName : String} {v : VersionRow} :
    a.latestVersionNamed? modName = some v ↔
      ∃ m, a.mod? modName = some m ∧ m.id = v.modId ∧ a.IsNewest v.modId v := by
  simp only [latestVersionNamed?, Option.bind_eq_some_iff,
    latestVersion?_eq_some_iff h.versions.unique]
  apply exists_congr
  intro m
  apply and_congr_right
  intro _
  constructor
  · intro newest
    have same := newest.ofMod
    exact ⟨same.symm, by rw [same]; exact newest⟩
  · rintro ⟨same, newest⟩
    rw [same]
    exact newest

/-- A file is read back from the newest version of its mod. -/
theorem archivedEntries_of_latest {modName path : String} {v : VersionRow}
    (latest : a.latestVersionNamed? modName = some v) :
    a.archivedEntries modName path language = a.entriesWithHistory v (baseName path) language := by
  simp [archivedEntries, latest]

end Archive

namespace Action

open Archive

variable {a b : Archive} {access : Access} {modName path language : String}

/-- The newest version of a mod is read where there are tables. -/
theorem ends_latestVersionNamed_iff {v : Option VersionRow} :
    (latestVersionNamed modName).Ends access a v b ↔
      a.layout.hasTables = true ∧ v = a.latestVersionNamed? modName ∧ b = a := by
  rw [latestVersionNamed, ends_bind_iff]
  constructor
  · rintro ⟨found, c, first, second⟩
    obtain ⟨tables, rfl, rfl⟩ := ends_read_iff.mp first
    refine ⟨tables, ?_⟩
    cases hm : c.mod? modName with
    | none =>
      rw [hm] at second
      simpa [Archive.latestVersionNamed?, hm] using second
    | some m =>
      rw [hm] at second
      obtain ⟨-, rfl, rfl⟩ := ends_read_iff.mp second
      simp [Archive.latestVersionNamed?, hm]
  · rintro ⟨tables, rfl, rfl⟩
    refine ⟨_, b, ends_read_iff.mpr ⟨tables, rfl, rfl⟩, ?_⟩
    cases hm : b.mod? modName with
    | none => simp [Archive.latestVersionNamed?, hm]
    | some m => exact ends_read_iff.mpr ⟨tables, by simp [Archive.latestVersionNamed?, hm], rfl⟩

/-- A file is read back where there are the tables of today. -/
theorem ends_archivedEntries_iff (h : a.Consistent) {entries : List ArchivedEntry} :
    (archivedEntries modName path language).Ends access a entries b ↔
      a.layout = .current ∧ entries = a.archivedEntries modName path language ∧ b = a := by
  rw [archivedEntries, ends_bind_iff]
  constructor
  · rintro ⟨found, c, first, second⟩
    obtain ⟨tables, rfl, rfl⟩ := ends_latestVersionNamed_iff.mp first
    refine ⟨h.layout_eq_current tables, ?_⟩
    cases hv : c.latestVersionNamed? modName with
    | none =>
      rw [hv] at second
      simpa [Archive.archivedEntries, hv] using second
    | some v =>
      rw [hv] at second
      obtain ⟨-, rfl, rfl⟩ := ends_readFilesBy_iff.mp second
      simp [Archive.archivedEntries, hv]
  · rintro ⟨current, rfl, rfl⟩
    have tables := hasTables_of_current current
    have paths := hasFilePaths_of_current current
    refine ⟨_, b, ends_latestVersionNamed_iff.mpr ⟨tables, rfl, rfl⟩, ?_⟩
    cases hv : b.latestVersionNamed? modName with
    | none => simp [Archive.archivedEntries, hv]
    | some v =>
      exact ends_readFilesBy_iff.mpr ⟨paths, by simp [Archive.archivedEntries, hv], rfl⟩

/-- What is read back of a key is its last rendering in the files of the mod. -/
theorem exists_mod_of_ends_archivedEntries (h : a.Consistent) {entries : List ArchivedEntry}
    (ends : (archivedEntries modName path language).Ends access a entries b)
    {e : ArchivedEntry} (he : e ∈ entries) :
    ∃ m, a.mod? modName = some m ∧
      e.rendering = lastRendering? (a.renderingHistory m.id (baseName path) language) e.key := by
  obtain ⟨-, rfl, -⟩ := (ends_archivedEntries_iff h).mp ends
  cases latest : a.latestVersionNamed? modName with
  | none => simp [Archive.archivedEntries, latest] at he
  | some v =>
    obtain ⟨m, hm, id, -⟩ := (latestVersionNamed?_eq_some_iff h).mp latest
    rw [archivedEntries_of_latest latest, entriesWithHistory, ← id] at he
    obtain ⟨row, -, rfl⟩ := List.mem_map.mp he
    exact ⟨m, hm, rfl⟩

end Action

end LocalizationMemory
