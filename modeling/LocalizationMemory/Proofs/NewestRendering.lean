import Mathlib.Data.Prod.Lex
import LocalizationMemory.Proofs.Archive.History
import LocalizationMemory.Proofs.Reachability

/-!
# Reading back what is newest

Versions and renderings are stamped with their time and their id, and stamps are compared
lexicographically, so that of rows of one time the one made later counts as newer. A file
is read back from the version of its mod that has the greatest stamp. Every key comes with
the text of the rendering that has the greatest stamp among those of the key in a file of
that name, in whatever version of the mod. Neither the number of versions nor the order in
which renderings were stored or replaced plays a part beyond that.

## Main definitions

* `VersionRow.stamp`, `RenderingRow.stamp` — by what versions and renderings are compared
* `Archive.ReadsBack` — what is read back of an entry

## Main results

* `Archive.isNewest_iff_stamp`, `Archive.lastRendering?_eq_some_iff_stamp` — what is newest
  has the greatest stamp
* `Archive.archivedEntries_eq_nil_iff` — when there is nothing to read back
* `Archive.Reached.reads_newest_renderings` — what is read back of a file
-/

namespace LocalizationMemory

/-- Versions are compared by their times, and versions of one time by their ids. -/
def VersionRow.stamp (v : VersionRow) : Millis ×ₗ RowId := toLex (v.createdAt, v.id)

/-- Renderings are compared by their times, and renderings of one time by their ids. -/
def RenderingRow.stamp (t : RenderingRow) : Millis ×ₗ RowId := toLex (t.translatedAt, t.id)

namespace Archive

variable {a : Archive} {modId : RowId} {modName path file language key : String}

/-! ### What is newest -/

theorem notOlder_iff_stamp_le {v w : VersionRow} : notOlder v w = true ↔ w.stamp ≤ v.stamp := by
  rw [notOlder, decide_eq_true_iff, VersionRow.stamp, VersionRow.stamp, Prod.Lex.toLex_le_toLex]

theorem notNewer_iff_stamp_le {t u : RenderingRow} :
    notNewer t u = true ↔ t.stamp ≤ u.stamp := by
  rw [notNewer, decide_eq_true_iff, RenderingRow.stamp, RenderingRow.stamp,
    Prod.Lex.toLex_le_toLex]

/-- The newest version of a mod has the greatest stamp. -/
theorem isNewest_iff_stamp {v : VersionRow} :
    a.IsNewest modId v ↔ v ∈ a.versions.rows ∧ v.modId = modId ∧
      ∀ w ∈ a.versions.rows, w.modId = modId → w.stamp ≤ v.stamp := by
  simp only [← notOlder_iff_stamp_le]
  exact ⟨fun h => ⟨h.mem, h.ofMod, h.newest⟩, fun ⟨mem, ofMod, newest⟩ => ⟨mem, ofMod, newest⟩⟩

/-- The last rendering of a key has the greatest stamp. -/
theorem lastRendering?_eq_some_iff_stamp (h : a.Consistent) {text : String} :
    lastRendering? (a.renderingHistory modId file language) key = some text ↔
      ∃ t, a.Renders modId file language key t ∧
        (∀ u, a.Renders modId file language key u → u.stamp ≤ t.stamp) ∧ t.text = text := by
  simp only [lastRendering?_eq_some_iff h, notNewer_iff_stamp_le]

theorem latestVersion?_eq_none_iff :
    a.latestVersion? modId = none ↔ ∀ v ∈ a.versions.rows, v.modId ≠ modId := by
  simp [latestVersion?, versionsOf, List.eq_nil_iff_forall_not_mem]

/-! ### What is read back -/

/-- What is read back of an entry: its key and its text, and the text of the greatest rendering of
its key in the file, in whatever version of the mod, if there is one. -/
structure ReadsBack (a : Archive) (modId : RowId) (file language : String) (e : EntryRow)
    (x : ArchivedEntry) : Prop where
  key : x.key = e.key
  source : x.source = e.text
  rendering : ∀ text, x.rendering = some text ↔ ∃ t, a.Renders modId file language e.key t ∧
    (∀ u, a.Renders modId file language e.key u → u.stamp ≤ t.stamp) ∧ t.text = text
  unrendered : x.rendering = none ↔ ∀ t, ¬ a.Renders modId file language e.key t

/-- The entries of a file are read back one by one. -/
theorem forall₂_readsBack (h : a.Consistent) (v : VersionRow) :
    List.Forall₂ (a.ReadsBack v.modId file language) (a.entriesOfFile v.id file)
      (a.entriesWithHistory v file language) := by
  rw [entriesWithHistory, List.forall₂_map_right_iff, List.forall₂_same]
  intro e _
  exact ⟨rfl, rfl, fun _ => lastRendering?_eq_some_iff_stamp h, lastRendering?_eq_none_iff h⟩

/-- A name stands for the one mod that has it. -/
theorem mod?_eq_some_iff (names : a.mods.Unique (·.name)) {m : ModRow} :
    a.mod? modName = some m ↔ m ∈ a.mods.rows ∧ m.name = modName :=
  names.find?_eq_some_iff

/-- There is nothing to read back exactly if the mod, a version of it, or an entry of the file in
its newest version is missing. -/
theorem archivedEntries_eq_nil_iff (h : a.Consistent) :
    a.archivedEntries modName path language = [] ↔
      (∀ m ∈ a.mods.rows, m.name ≠ modName) ∨
      (∃ m ∈ a.mods.rows, m.name = modName ∧ ∀ v ∈ a.versions.rows, v.modId ≠ m.id) ∨
      ∃ m ∈ a.mods.rows, m.name = modName ∧ ∃ v, a.IsNewest m.id v ∧
        ∀ e ∈ a.entries.rows, e.versionId = v.id → e.file ≠ some (baseName path) := by
  cases hm : a.mod? modName with
  | none =>
    have missing : ∀ m ∈ a.mods.rows, m.name ≠ modName := by simpa [mod?] using hm
    exact iff_of_true (by simp [archivedEntries, latestVersionNamed?, hm]) (.inl missing)
  | some m =>
    obtain ⟨mem, name⟩ := (mod?_eq_some_iff h.modNames).mp hm
    -- The name decides which mod is meant in each of the cases.
    have only {P : ModRow → Prop} : (∃ m' ∈ a.mods.rows, m'.name = modName ∧ P m') ↔ P m := by
      constructor
      · rintro ⟨m', mem', name', hP⟩
        rwa [h.modNames.eq_of_key_eq mem mem' (name.trans name'.symm)]
      · exact fun hP => ⟨m, mem, name, hP⟩
    have present : ¬ ∀ m ∈ a.mods.rows, m.name ≠ modName := fun none => none m mem name
    rw [only, only, or_iff_right present]
    cases hv : a.latestVersion? m.id with
    | none =>
      have missing := latestVersion?_eq_none_iff.mp hv
      exact iff_of_true (by simp [archivedEntries, latestVersionNamed?, hm, hv]) (.inl missing)
    | some v =>
      have newest := (latestVersion?_eq_some_iff h.versions.unique).mp hv
      have there : ¬ ∀ v ∈ a.versions.rows, v.modId ≠ m.id :=
        fun none => none v newest.mem newest.ofMod
      have latest : a.latestVersionNamed? modName = some v := by simp [latestVersionNamed?, hm, hv]
      rw [or_iff_right there, archivedEntries_of_latest latest, entriesWithHistory,
        List.map_eq_nil_iff, List.eq_nil_iff_forall_not_mem]
      simp only [mem_entriesOfFile_iff, not_and]
      constructor
      · exact fun none => ⟨v, newest, none⟩
      · rintro ⟨w, newest', none⟩
        rwa [newest.unique h newest']

/-- What is read back of a file of a mod, in an archive that is reached. It is what the version of
the mod with the greatest stamp has of the file, in the order of the ids, and of each entry the key
and the text as they are stored, with the text of the rendering that has the greatest stamp among
those of its key in a file of that name, in whatever version of the mod. Nothing is read back
exactly if the mod, a version or an entry of the file is missing. -/
theorem Reached.reads_newest_renderings {tick : Millis → Millis → Prop} {now : Millis}
    {a : Archive} (reached : a.Reached tick now) (tables : a.layout.hasTables = true)
    (modName path language : String) :
    ∃ items, (∀ access, (Action.archivedEntries modName path language).Ends access a items a) ∧
      (∀ m ∈ a.mods.rows, m.name = modName → ∀ v ∈ a.versions.rows, v.modId = m.id →
        (∀ w ∈ a.versions.rows, w.modId = m.id → w.stamp ≤ v.stamp) →
          ∃ rows : List EntryRow, rows.Pairwise (fun e e' => e.id < e'.id) ∧
            (∀ e, e ∈ rows ↔
              e ∈ a.entries.rows ∧ e.versionId = v.id ∧ e.file = some (baseName path)) ∧
            List.Forall₂ (a.ReadsBack m.id (baseName path) language) rows items) ∧
      (items = [] ↔
        (∀ m ∈ a.mods.rows, m.name ≠ modName) ∨
        (∃ m ∈ a.mods.rows, m.name = modName ∧ ∀ v ∈ a.versions.rows, v.modId ≠ m.id) ∨
        ∃ m ∈ a.mods.rows, m.name = modName ∧ ∃ v ∈ a.versions.rows, v.modId = m.id ∧
          (∀ w ∈ a.versions.rows, w.modId = m.id → w.stamp ≤ v.stamp) ∧
            ∀ e ∈ a.entries.rows, e.versionId = v.id → e.file ≠ some (baseName path)) := by
  have ha := reached.isConsistent
  have current := ha.layout_eq_current tables
  refine ⟨a.archivedEntries modName path language, fun access => ?_, ?_, ?_⟩
  · exact (Action.ends_archivedEntries_iff ha).mpr ⟨current, rfl, rfl⟩
  · intro m hm name v hv ofMod newest
    have latest : a.latestVersionNamed? modName = some v :=
      (latestVersionNamed?_eq_some_iff ha).mpr ⟨m, (mod?_eq_some_iff ha.modNames).mpr ⟨hm, name⟩,
        ofMod.symm, isNewest_iff_stamp.mpr ⟨hv, rfl, by rwa [ofMod]⟩⟩
    refine ⟨a.entriesOfFile v.id (baseName path), (ha.entries.ascending.filter _).filter _,
      fun e => mem_entriesOfFile_iff, ?_⟩
    rw [archivedEntries_of_latest latest, ← ofMod]
    exact forall₂_readsBack ha v
  · rw [archivedEntries_eq_nil_iff ha]
    simp only [isNewest_iff_stamp, and_assoc]

/-- The key of a file that stays is read back with the text that it was given in the version
before, and the key that is new with none. -/
theorem Reached.reads_newest_renderings_of_later_version :
    ∃ a : Archive, a.Reached (· ≤ ·) 4 ∧
      ∃ items, (∀ access,
          (Action.archivedEntries "Alpha" "mods/a.yml" "ko").Ends access a items a) ∧
        ∃ rows : List EntryRow,
          (∀ e, e ∈ rows ↔ e ∈ a.entries.rows ∧ e.versionId = 2 ∧ e.file = some "a.yml") ∧
          List.Forall₂ (a.ReadsBack 1 "a.yml" "ko") rows items ∧ items.length = 2 := by
  let s : Store := { settings := {} }
  let ops : List Operation := [
    .snapshot 1 [⟨"a.yml", [⟨"k", none⟩, ⟨"l", none⟩], ["X", "Y"]⟩],
    .putRenderings "ko" [(1, "P")],
    .snapshot 1 [⟨"a.yml", [⟨"k", none⟩], ["X"]⟩], .ensureMod "Alpha" none]
  obtain ⟨a, found, tables, m, hm, name, id, v, hv, ofMod, vid, newest, entries⟩ :
      ∃ a ∈ (s.operateAll ops).archive? 0, a.layout.hasTables = true ∧
        ∃ m ∈ a.mods.rows, m.name = "Alpha" ∧ m.id = 1 ∧ ∃ v ∈ a.versions.rows, v.modId = m.id ∧
          v.id = 2 ∧ (∀ w ∈ a.versions.rows, w.modId = m.id → notOlder v w = true) ∧
            (a.entriesOfFile 2 "a.yml").length = 2 := by
    decide +kernel
  have reached : a.Reached (· ≤ ·) 4 := ⟨_, 0, s.reached_operateAll ops, found⟩
  obtain ⟨items, ends, reads, -⟩ :=
    reached.reads_newest_renderings tables "Alpha" "mods/a.yml" "ko"
  obtain ⟨rows, ascending, mem, each⟩ := reads m hm name v hv ofMod fun w hw ofMod' =>
    notOlder_iff_stamp_le.mp (newest w hw ofMod')
  have base : baseName "mods/a.yml" = "a.yml" := by decide +kernel
  rw [base, vid] at mem
  rw [base, id] at each
  -- The rows are all that the version has of the file, so there are as many.
  have perm : rows.Perm (a.entriesOfFile 2 "a.yml") := by
    have ha := reached.isConsistent
    refine (List.perm_ext_iff_of_nodup ?_ ?_).mpr fun e => (mem e).trans mem_entriesOfFile_iff.symm
    · exact ascending.imp fun later same => absurd (same ▸ later) (Int.lt_irrefl _)
    · exact ((ha.entries.unique.of_map _).filter _).filter _
  exact ⟨a, reached, items, ends, rows, mem, each,
    by rw [← each.length_eq, perm.length_eq, entries]⟩

end Archive

end LocalizationMemory
