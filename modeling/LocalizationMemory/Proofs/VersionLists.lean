import LocalizationMemory.Archive.Named
import LocalizationMemory.Proofs.Archive.Lineage
import LocalizationMemory.Proofs.Dict
import LocalizationMemory.Proofs.NewestRendering
import LocalizationMemory.Proofs.Text.ByteOrder

/-!
# What is told of versions

Of a mod its versions are listed, and its newest version is told by itself; of a version the
entries are counted, its files are listed, and languages are counted by the renderings of
its entries. These are queries of their own, and each is answered from the rows alone. They
agree with each other because ids tell versions apart, so that no two have one stamp,
and because an entry has one rendering into a language, so that counting renderings is
counting entries.

## Main definitions

* `Archive.TranslatedInto` — an entry has a rendering into a language
* `Archive.Describes` — what is told of a version is what its rows say
* `Archive.Lists` — a list of versions and a newest version are those of a mod

## Main results

* `Archive.Sound.pairwise_versionsOf` — versions are listed from the greatest stamp to the least
* `Archive.Sound.count_languagesOf` — counting renderings is counting entries
* `Archive.Arises.lists_agree` — what is told of the versions of a mod
-/

namespace LocalizationMemory.Archive

open Text (utf8 utf8_lt_utf8_iff)

variable {a : Archive} {modId versionId : RowId} {language modName : String}

/-! ### The versions of a mod -/

@[simp] theorem mem_versionsOf_iff {v : VersionRow} :
    v ∈ a.versionsOf modId ↔ v ∈ a.versions.rows ∧ v.modId = modId := by
  simp [versionsOf]

/-- Versions are listed from the greatest stamp to the least, and no two have one. -/
theorem Sound.pairwise_versionsOf (h : a.Sound) (modId : RowId) :
    (a.versionsOf modId).Pairwise fun v w => w.stamp < v.stamp := by
  have perm : (a.versionsOf modId).Perm (a.versions.rows.filter (·.modId == modId)) :=
    sortBy_perm _ _
  have distinct : ((a.versionsOf modId).map (·.id)).Nodup :=
    (perm.map _).nodup_iff.mpr (List.Nodup.sublist (List.filter_sublist.map _) h.versions.unique)
  have ordered := pairwise_sortBy notOlder_trans notOlder_total
    (a.versions.rows.filter (·.modId == modId))
  refine (ordered.and (List.pairwise_map.mp distinct)).imp fun {v w} ⟨notOlder, differ⟩ => ?_
  refine lt_of_le_of_ne (notOlder_iff_stamp_le.mp notOlder) fun same => differ ?_
  exact (congrArg (fun stamp => (ofLex stamp).2) same).symm

/-! ### What a version has -/

theorem length_entriesOf :
    (a.entriesOf versionId).length = a.entries.rows.countP (·.versionId = versionId) := by
  rw [entriesOf, ← List.countP_eq_length_filter]
  rfl

/-- The files of a version are listed once each, in the order of their bytes; entries without a
file count for the empty name. -/
theorem files_versionSummary (v : VersionRow) :
    (a.versionSummary v).files.Pairwise (fun f g => utf8 f < utf8 g) ∧
    ∀ f, f ∈ (a.versionSummary v).files ↔
      ∃ e ∈ a.entries.rows, e.versionId = v.id ∧ e.file.getD "" = f := by
  constructor
  · exact (Dict.pairwise_keys _).imp utf8_lt_utf8_iff.mpr
  · intro f
    rw [versionSummary, Dict.mem_keys_ofList_iff]
    simp [and_assoc]

/-- An entry has a rendering into a language. -/
def TranslatedInto (a : Archive) (language : String) (e : EntryRow) : Prop :=
  ∃ t ∈ a.renderings.rows, t.entryId = e.id ∧ t.language = language

instance : DecidablePred (a.TranslatedInto language) := fun e =>
  List.decidableBEx (p := fun t : RenderingRow => t.entryId = e.id ∧ t.language = language)
    a.renderings.rows

theorem mem_languagesOf_iff : language ∈ a.languagesOf versionId ↔
    ∃ e ∈ a.entries.rows, e.versionId = versionId ∧ a.TranslatedInto language e := by
  simp only [languagesOf, List.mem_map, List.mem_filter, List.any_eq_true, mem_entriesOf_iff,
    beq_iff_eq, TranslatedInto]
  constructor
  · rintro ⟨t, ⟨ht, e, ⟨he, version⟩, id⟩, into⟩
    exact ⟨e, he, version, t, ht, id.symm, into⟩
  · rintro ⟨e, he, version, t, ht, id, into⟩
    exact ⟨t, ⟨ht, e, ⟨he, version⟩, id.symm⟩, into⟩

/-- An entry has one rendering into a language, so counting renderings is counting entries. -/
theorem Sound.count_languagesOf (h : a.Sound) (versionId : RowId) (language : String) :
    (a.languagesOf versionId).count language =
      a.entries.rows.countP fun e => e.versionId = versionId ∧ a.TranslatedInto language e := by
  have renderings : (a.languagesOf versionId).count language = (a.renderings.rows.filter fun t =>
      t.language == language && (a.entriesOf versionId).any (·.id == t.entryId)).length := by
    rw [languagesOf, List.count, List.countP_map, List.countP_filter, List.countP_eq_length_filter]
    rfl
  rw [renderings, List.countP_eq_length_filter]
  -- Renderings of one language are told apart by their entries, and these are the ones counted.
  rw [← List.length_map fun t : RenderingRow => t.entryId,
    ← List.length_map fun e : EntryRow => e.id]
  refine (List.perm_ext_iff_of_nodup ?_ ?_).mpr (fun id => ?_) |>.length_eq
  · refine List.Nodup.map_on (fun t ht u hu same => ?_) ((h.languages.of_map _).filter _)
    simp only [List.mem_filter, Bool.and_eq_true, beq_iff_eq] at ht hu
    refine h.languages.eq_of_key_eq ht.1 hu.1 ?_
    rw [same, ht.2.1, hu.2.1]
  · exact List.Nodup.sublist (List.filter_sublist.map _) h.entries.unique
  · simp only [List.mem_map, List.mem_filter, Bool.and_eq_true, beq_iff_eq, List.any_eq_true,
      mem_entriesOf_iff, decide_eq_true_eq]
    constructor
    · rintro ⟨t, ⟨ht, into, e, ⟨he, version⟩, same⟩, rfl⟩
      exact ⟨e, ⟨he, version, t, ht, same.symm, into⟩, same⟩
    · rintro ⟨e, ⟨he, version, t, ht, same, into⟩, rfl⟩
      exact ⟨t, ⟨ht, into, e, ⟨he, version⟩, same.symm⟩, same⟩

/-! ### What is told -/

/-- What is told of a version is what its rows say. -/
structure Describes (a : Archive) (s : VersionSummary) (stats : List LanguageStat) : Prop where
  entryCount : s.entryCount = a.entries.rows.countP (·.versionId = s.version.id)
  filesAscend : s.files.Pairwise fun f g => utf8 f < utf8 g
  /-- An entry without a file counts for the empty name. -/
  files : ∀ f, f ∈ s.files ↔
    ∃ e ∈ a.entries.rows, e.versionId = s.version.id ∧ e.file.getD "" = f
  languagesAscend : stats.Pairwise fun p q => utf8 p.language < utf8 q.language
  languages : ∀ language, (∃ stat ∈ stats, stat.language = language) ↔
    ∃ e ∈ a.entries.rows, e.versionId = s.version.id ∧ a.TranslatedInto language e
  translated : ∀ stat ∈ stats, stat.translated = a.entries.rows.countP fun e =>
    e.versionId = s.version.id ∧ a.TranslatedInto stat.language e
  bounded : ∀ stat ∈ stats, 1 ≤ stat.translated ∧ stat.translated ≤ s.entryCount

/-- A newest version and a list of versions are those of a mod. -/
structure Lists (a : Archive) (ofMod : VersionRow → Prop) (latest : Option VersionRow)
    (summaries : List VersionSummary) : Prop where
  mem : ∀ v, (∃ s ∈ summaries, s.version = v) ↔ v ∈ a.versions.rows ∧ ofMod v
  /-- No version is listed twice. -/
  descending : summaries.Pairwise fun s t => t.version.stamp < s.version.stamp
  first : summaries.head?.map (·.version) = latest
  empty : summaries = [] ↔ latest = none
  described : ∀ s ∈ summaries, ∃ stats,
    (∀ access, (Action.languageStats s.version.id).Ends access a stats a) ∧ a.Describes s stats

theorem Sound.describes (h : a.Sound) (v : VersionRow) :
    a.Describes (a.versionSummary v) (a.languageStats v.id) := by
  have languages : ∀ language, (∃ stat ∈ a.languageStats v.id, stat.language = language) ↔
      ∃ e ∈ a.entries.rows, e.versionId = v.id ∧ a.TranslatedInto language e := by
    intro language
    rw [← mem_languagesOf_iff]
    simp [languageStats, Dict.mem_keys_ofList_iff]
  have translated : ∀ stat ∈ a.languageStats v.id, stat.translated =
      a.entries.rows.countP fun e => e.versionId = v.id ∧ a.TranslatedInto stat.language e := by
    intro stat mem
    obtain ⟨language, -, rfl⟩ := List.mem_map.mp mem
    exact h.count_languagesOf v.id language
  obtain ⟨filesAscend, files⟩ := a.files_versionSummary v
  refine ⟨length_entriesOf, filesAscend, files, ?_, languages, translated, fun stat mem => ?_⟩
  · refine List.pairwise_map.mpr ((Dict.pairwise_keys _).imp fun before => ?_)
    exact utf8_lt_utf8_iff.mpr before
  · have count : (a.versionSummary v).entryCount = _ := length_entriesOf
    rw [translated stat mem, count]
    constructor
    · obtain ⟨e, he, own⟩ := (languages stat.language).mp ⟨stat, mem, rfl⟩
      exact List.countP_pos_iff.mpr ⟨e, he, decide_eq_true own⟩
    · refine List.countP_mono_left fun e _ both => ?_
      exact decide_eq_true (of_decide_eq_true both).1

/-- What is listed of a mod by its id. -/
theorem Sound.lists (h : a.Sound) (tables : a.layout.hasTables = true) (modId : RowId) :
    a.Lists (·.modId = modId) (a.latestVersion? modId) (a.versionSummaries modId) where
  mem v := by
    simp [versionSummaries, versionSummary]
  descending := List.pairwise_map.mpr (h.pairwise_versionsOf modId)
  first := by
    rw [versionSummaries, latestVersion?, List.head?_map, Option.map_map]
    exact congrFun Option.map_id _
  empty := by
    rw [versionSummaries, latestVersion?, List.map_eq_nil_iff, List.head?_eq_none_iff]
  described s mem := by
    obtain ⟨v, -, rfl⟩ := List.mem_map.mp mem
    exact ⟨a.languageStats v.id, fun access => Action.ends_read_iff.mpr ⟨tables, rfl, rfl⟩,
      h.describes v⟩

/-- Names tell mods apart, so what is listed of a name is what is listed of one mod. -/
theorem Sound.lists_of_mod (h : a.Sound) (tables : a.layout.hasTables = true) {m : ModRow}
    (found : a.mod? modName = some m) :
    a.Lists (fun v => ∃ m ∈ a.mods.rows, m.name = modName ∧ m.id = v.modId)
      (a.latestVersion? m.id) (a.versionSummaries m.id) := by
  obtain ⟨hm, name⟩ := (mod?_eq_some_iff h.modNames).mp found
  have ofMod (v : VersionRow) : (∃ m' ∈ a.mods.rows, m'.name = modName ∧ m'.id = v.modId) ↔
      v.modId = m.id := by
    constructor
    · rintro ⟨m', hm', name', id⟩
      rw [← id, h.modNames.eq_of_key_eq hm' hm (name'.trans name.symm)]
    · exact fun id => ⟨m, hm, name, id.symm⟩
  simp only [ofMod]
  exact h.lists tables m.id

/-- Of a name that no mod has nothing is listed. -/
theorem lists_of_no_mod (missing : a.mod? modName = none) :
    a.Lists (fun v => ∃ m ∈ a.mods.rows, m.name = modName ∧ m.id = v.modId) none [] := by
  have missing : ∀ m ∈ a.mods.rows, m.name ≠ modName := by simpa [mod?] using missing
  refine ⟨fun v => ?_, .nil, rfl, by simp, by simp⟩
  constructor
  · rintro ⟨s, mem, -⟩
    cases mem
  · rintro ⟨-, m, hm, name, -⟩
    exact absurd name (missing m hm)

/-- What is told of the versions of a mod, by its id or by its name, in an archive of whatever past.
Every version of the mod is listed once, by its stamp from the greatest to the least; the first one
listed is the newest version that is told by itself, and nothing is listed exactly if there is
none. What is told of a version is what its rows say: the number of its entries, its files in the
order of their bytes, where no file counts for the empty name, and its languages in the order of
their bytes, each with the number of entries that have a rendering into it, which is one at least
and the number of all entries at most. -/
theorem Arises.lists_agree (arises : a.Arises) (paths : a.layout.hasFilePaths = true) :
    (∀ modId, ∃ latest summaries,
      (∀ access, (Action.latestVersion modId).Ends access a latest a ∧
        (Action.versionSummaries modId).Ends access a summaries a) ∧
      a.Lists (·.modId = modId) latest summaries) ∧
    ∀ modName, ∃ latest summaries,
      (∀ access, (Action.latestVersionNamed modName).Ends access a latest a ∧
        (Action.versionSummariesNamed modName).Ends access a summaries a) ∧
      a.Lists (fun v => ∃ m ∈ a.mods.rows, m.name = modName ∧ m.id = v.modId) latest summaries := by
  have h := arises.sound
  have tables := Layout.hasTables_of_hasFilePaths paths
  refine ⟨fun modId => ⟨_, _, fun access => ⟨Action.ends_read_iff.mpr ⟨tables, rfl, rfl⟩,
    Action.ends_readFiles_iff.mpr ⟨paths, rfl, rfl⟩⟩, h.lists tables modId⟩, fun modName => ?_⟩
  cases found : a.mod? modName with
  | none =>
    refine ⟨none, [], fun access => ⟨?_, ?_⟩, lists_of_no_mod found⟩
    · exact Action.ends_latestVersionNamed_iff.mpr
        ⟨tables, by simp [latestVersionNamed?, found], rfl⟩
    · refine Action.ends_bind_iff.mpr ⟨none, a, Action.ends_read_iff.mpr ⟨tables, found.symm, rfl⟩, ?_⟩
      exact Action.ends_pure_iff.mpr ⟨rfl, rfl⟩
  | some m =>
    refine ⟨_, _, fun access => ⟨?_, ?_⟩, h.lists_of_mod tables found⟩
    · exact Action.ends_latestVersionNamed_iff.mpr
        ⟨tables, by simp [latestVersionNamed?, found], rfl⟩
    · exact Action.ends_bind_iff.mpr ⟨some m, a, Action.ends_read_iff.mpr ⟨tables, found.symm, rfl⟩,
        Action.ends_readFiles_iff.mpr ⟨paths, rfl, rfl⟩⟩

/-- An entry that was taken out of its file is listed with one whose file has the empty name, and
of two versions the later one is listed first. -/
theorem Arises.lists_agree_of_no_file :
    ∃ a b : Archive, a.Reached (· ≤ ·) 5 ∧
      a.assignFile { versionId := some 1, key := some "l" } none = .ok (1, b) ∧
      ∃ latest summaries, (∀ access, (Action.latestVersionNamed "Alpha").Ends access b latest b ∧
        (Action.versionSummariesNamed "Alpha").Ends access b summaries b) ∧
      b.Lists (fun v => ∃ m ∈ b.mods.rows, m.name = "Alpha" ∧ m.id = v.modId) latest summaries ∧
      summaries.map (fun s => (s.version.id, s.entryCount, s.files)) =
        [(2, 1, ["é.yml"]), (1, 4, ["", "a.yml", "é.yml"])] := by
  let s : Store := { settings := {} }
  let ops : List Operation := [
    .putRenderings "ja" [(2, "R")], .putRenderings "ko" [(1, "P"), (3, "Q")],
    .snapshot 1 [⟨"é.yml", [⟨"k", none⟩], ["V"]⟩],
    .snapshot 1 [⟨"é.yml", [⟨"k", none⟩, ⟨"l", none⟩], ["X", "Y"]⟩, ⟨"", [⟨"k", none⟩], ["Z"]⟩,
      ⟨"a.yml", [⟨"m", none⟩], ["W"]⟩], .ensureMod "Alpha" none]
  obtain ⟨a, found, p, changed, one, paths, paths', listed⟩ :
      ∃ a ∈ (s.operateAll ops).archive? 0,
        ∃ p ∈ (a.assignFile { versionId := some 1, key := some "l" } none).toOption,
          p.1 = 1 ∧ a.layout.hasFilePaths = true ∧ p.2.layout.hasFilePaths = true ∧
          ∀ summaries ∈ (Action.versionSummariesNamed "Alpha" { now := 6 } p.2).result.toOption,
            (summaries.map (fun s => (s.version.id, s.entryCount, s.files)) ==
              [(2, 1, ["é.yml"]), (1, 4, ["", "a.yml", "é.yml"])]) = true := by
    decide +kernel
  have reached : a.Reached (· ≤ ·) 5 := ⟨_, 0, s.reached_operateAll ops, found⟩
  obtain ⟨n, b⟩ := p
  obtain rfl : n = 1 := one
  have refiled := eq_ok_of_mem_toOption changed
  have arises : b.Arises := .assignFile reached.arises paths refiled
  obtain ⟨-, named⟩ := Arises.lists_agree arises paths'
  obtain ⟨latest, summaries, ends, lists⟩ := named "Alpha"
  refine ⟨a, b, reached, refiled, latest, summaries, ends, lists, eq_of_beq (listed summaries ?_)⟩
  rw [(ends { now := 6 }).2.1]
  rfl

end LocalizationMemory.Archive
