import Mathlib.Data.List.Induction
import LocalizationMemory.Proofs.SnapshotRace

/-!
# A snapshot as a whole or not at all

A snapshot of files whose hash is new records what was parsed and nothing else: in the order
of their ids, its entries are the lines of the files in their order, of which the first of
every key of a file counts. A rule may refuse the version, or any of the lines when so many
of those before it have become entries; then nothing of the snapshot is left, and the ids
that it had used up are given out again.

## Main definitions

* `Archive.RefusesAt` — a rule refuses an insert into a table of so many rows
* `Archive.Admits` — nothing in an archive keeps a version of files from being stored
* `Archive.Records` — how an archive differs by a snapshot, the counters of ids included

## Main results

* `Archive.exists_insertEntries_iff` — lines are stored unless a rule refuses one of them
* `Archive.exists_addVersion_iff` — a version is stored exactly if it is admitted
* `Archive.records_of_addVersion` — what is left by a version that is stored
* `Archive.Reached.snapshot_whole_or_nothing` — a snapshot of files whose hash is new
-/

namespace LocalizationMemory

namespace Archive

variable {a b : Archive} {now : Millis} {versionId modId : RowId} {files : List SourceFile}

/-! ### What rules refuse -/

/-- A rule refuses an insert into a table of so many rows. -/
def RefusesAt (a : Archive) (table : TableName) (size : Nat) : Prop :=
  ∃ r ∈ a.rules, r.table = table ∧ r.size ≤ size

theorem refusal?_eq_none_iff {table : TableName} :
    a.refusal? table = none ↔ ¬ a.RefusesAt table (a.rowCount table) := by
  simp [refusal?, RefusesAt]

/-! ### Lines that are stored one after the other -/

theorem insertEntries_append_eq_ok_iff {lines more : List SourceLine} {a : Archive} :
    insertEntries versionId (lines ++ more) a = .ok b ↔
      ∃ c, insertEntries versionId lines a = .ok c ∧ insertEntries versionId more c = .ok b := by
  induction lines generalizing a with
  | nil => simp [insertEntries]
  | cons line r ih =>
    simp only [List.cons_append, insertEntries_cons_eq_ok_iff, ih]
    constructor
    · rintro ⟨c, hc, d, hd, hb⟩
      exact ⟨d, ⟨c, hc, hd⟩, hb⟩
    · rintro ⟨d, ⟨c, hc, hd⟩, hb⟩
      exact ⟨c, hc, d, hd, hb⟩

/-- A line uses up an id, whether it becomes an entry or not. -/
theorem lastId_insertEntries {lines : List SourceLine} {a : Archive}
    (hb : insertEntries versionId lines a = .ok b) :
    b.entries.lastId = a.entries.lastId + lines.length := by
  induction lines generalizing a with
  | nil =>
    rw [insertEntries_nil_eq_ok_iff.mp hb, List.length_nil, Int.natCast_zero, Int.add_zero]
  | cons line r ih =>
    obtain ⟨c, hc, hb⟩ := insertEntries_cons_eq_ok_iff.mp hb
    obtain ⟨-, rfl⟩ := insertEntry_eq_ok_iff.mp hc
    rw [ih hb, Table.lastId_addUnless, Table.nextId, List.length_cons, Int.natCast_succ,
      Int.add_assoc, Int.add_comm 1]

section Free

variable (current : a.layout = .current)
  (free : ∀ e ∈ a.entries.rows, e.versionId ≠ versionId)

include current free

/-- In a version without entries the first line of every key becomes one. -/
theorem length_insertEntries {lines : List SourceLine}
    (hb : insertEntries versionId lines a = .ok b) :
    b.entries.rows.length = a.entries.rows.length + (distinctLines lines).length := by
  obtain ⟨new, news, rows⟩ := exists_newEntries_of_layout current hb
  have contents := news.contents
  have all : lines.filter (isFreeUnder .current a versionId) = lines := filter_isFree free lines
  rw [all, firstLines_current] at contents
  have length := congrArg List.length contents
  rw [List.length_map, List.length_map] at length
  rw [rows, List.length_append, length]

/-- Lines are stored in a version without entries unless a rule refuses one of them, when those
before it are there. -/
theorem exists_insertEntries_iff {lines : List SourceLine} :
    (∃ b, insertEntries versionId lines a = .ok b) ↔
      ∀ k < lines.length, ¬ a.RefusesAt .sourceEntries
        (a.entries.rows.length + (distinctLines (lines.take k)).length) := by
  -- What is refused depends on the lines before, so the induction takes lines from the end.
  induction lines using List.reverseRecOn with
  | nil => simp
  | append_singleton lines line ih =>
    have places : (∀ k < (lines ++ [line]).length, ¬ a.RefusesAt .sourceEntries
          (a.entries.rows.length + (distinctLines ((lines ++ [line]).take k)).length)) ↔
        (∃ b, insertEntries versionId lines a = .ok b) ∧ ¬ a.RefusesAt .sourceEntries
          (a.entries.rows.length + (distinctLines lines).length) := by
      rw [ih, List.length_append, List.length_singleton, Nat.forall_lt_succ_right, List.take_left]
      refine and_congr_left fun _ => forall₂_congr fun k hk => ?_
      rw [List.take_append_of_le_length (Nat.le_of_lt hk)]
    rw [places]
    simp only [insertEntries_append_eq_ok_iff, insertEntries_cons_eq_ok_iff,
      insertEntries_nil_eq_ok_iff, insertEntry_eq_ok_iff, refusal?_eq_none_iff]
    -- The rules are those of before, and the table has grown by the lines before this one.
    have refuses {c : Archive} (hc : insertEntries versionId lines a = .ok c) :
        c.RefusesAt .sourceEntries (c.rowCount .sourceEntries) ↔ a.RefusesAt .sourceEntries
          (a.entries.rows.length + (distinctLines lines).length) := by
      have rules : c.rules = a.rules := by rw [insertEntries_frame hc]
      rw [rowCount, length_insertEntries current free hc, RefusesAt, RefusesAt, rules]
    constructor
    · rintro ⟨b, c, hc, d, ⟨accepted, -⟩, -⟩
      exact ⟨⟨c, hc⟩, fun refused => accepted ((refuses hc).mpr refused)⟩
    · rintro ⟨⟨c, hc⟩, accepted⟩
      exact ⟨_, c, hc, _, ⟨fun refused => accepted ((refuses hc).mp refused), rfl⟩, rfl⟩

end Free

/-! ### The version as a whole -/

/-- Nothing in an archive keeps a version of files from being stored: its mod is there, and no
rule refuses the version, or one of the lines when those before it are stored. -/
structure Admits (a : Archive) (modId : RowId) (files : List SourceFile) : Prop where
  ofMod : ∃ m ∈ a.mods.rows, m.id = modId
  version : ¬ a.RefusesAt .sourceVersions a.versions.rows.length
  entries : ∀ k < (sourceLines files).length, ¬ a.RefusesAt .sourceEntries
    (a.entries.rows.length + (distinctLines ((sourceLines files).take k)).length)

/-- Without a rule only the mod has to be there. -/
theorem admits_iff_of_rules (rules : a.rules = []) :
    a.Admits modId files ↔ ∃ m ∈ a.mods.rows, m.id = modId := by
  have none (table : TableName) (size : Nat) : ¬ a.RefusesAt table size := by
    simp [RefusesAt, rules]
  exact ⟨Admits.ofMod, fun ofMod => ⟨ofMod, none _ _, fun k _ => none _ _⟩⟩

/-- A version whose hash is new is stored exactly if it is admitted. -/
theorem exists_addVersion_iff (now : Millis) (ha : a.Consistent) (current : a.layout = .current)
    (new : a.versionByHash? (snapshotHash files) = none) :
    (∃ s b, a.addVersion modId files now = .ok (s, b)) ↔ a.Admits modId files := by
  let c : Archive :=
    { a with versions := a.versions.add fun id => ⟨id, modId, snapshotHash files, now⟩ }
  -- The version itself brings no entries, so all lines are free in it.
  have lines : (∃ d, insertEntries a.versions.nextId (sourceLines files) c = .ok d) ↔ _ :=
    exists_insertEntries_iff (a := c) current fun e he => ha.versionId_ne_nextId he
  simp only [addVersion_eq_ok_iff, insertVersion_eq_ok_iff, refusal?_eq_none_iff]
  constructor
  · rintro ⟨s, b, _, d, ⟨accepted, -, ofMod, rfl⟩, -, hd, -⟩
    exact ⟨ofMod, accepted, lines.mp ⟨d, hd⟩⟩
  · intro admits
    obtain ⟨d, hd⟩ := lines.mpr admits.entries
    exact ⟨_, _, c, d, ⟨admits.version, new, admits.ofMod, rfl⟩, hasFilePaths_of_current current,
      hd, rfl, rfl⟩

/-- An archive differs from another by a snapshot that recorded the files: by a version with the
first line of every key, by the time of its mod, and by the counters of ids. -/
structure Records (a : Archive) (modId : RowId) (files : List SourceFile) (now : Millis)
    (s : Snapshot) (b : Archive) : Prop where
  stored : b.StoredFor modId files now s
  newId : s.versionId = a.versions.nextId
  versions : b.versions = a.versions.add fun id => ⟨id, modId, snapshotHash files, now⟩
  /-- The entries of the version follow on those of before. -/
  entries : b.entries.rows = a.entries.rows ++ b.entriesOf s.versionId
  ascending : (b.entriesOf s.versionId).Pairwise fun e e' => e.id < e'.id
  newIds : ∀ e ∈ b.entriesOf s.versionId, a.entries.lastId < e.id
  /-- A line that becomes no entry uses up an id as well. -/
  counted : b.entries.lastId = a.entries.lastId + (sourceLines files).length
  listed : ∃ u ∈ b.versionSummaries modId,
    u.version = ⟨s.versionId, modId, snapshotHash files, now⟩ ∧ u.entryCount = s.entriesWritten
  frame : b = { a with
    mods := a.mods.updateWhere (·.id == modId) ({ · with lastUpdated := now })
    versions := b.versions
    entries := b.entries }

/-- A version that is stored is recorded as a whole. -/
theorem records_of_addVersion (ha : a.Consistent) {s : Snapshot}
    (hb : a.addVersion modId files now = .ok (s, b)) : a.Records modId files now s b := by
  have hbc := ha.addVersion hb
  have stored := storedFor_of_addVersion ha hb
  obtain ⟨-, newId, -, versionRows, ⟨new, news, rows, -⟩, frame⟩ :=
    exists_newEntries_addVersion ha hb
  have own : b.entriesOf s.versionId = new :=
    news.entriesOf rows fun e he => newId ▸ ha.versionId_ne_nextId he
  have counters : b.versions = a.versions.add (fun id => ⟨id, modId, snapshotHash files, now⟩) ∧
      b.entries.lastId = a.entries.lastId + (sourceLines files).length := by
    obtain ⟨c, d, hc, -, hd, -, rfl⟩ := addVersion_eq_ok_iff.mp hb
    obtain ⟨-, -, -, rfl⟩ := insertVersion_eq_ok_iff.mp hc
    have kept := insertEntries_frame hd
    have counted := lastId_insertEntries hd
    exact ⟨by rw [touchMod, kept], counted⟩
  refine
    { stored
      newId
      versions := counters.1
      entries := by rw [own, rows]
      ascending := hbc.entries.ascending.filter _
      newIds := fun e he => news.newIds e (own ▸ he)
      counted := counters.2
      listed := ?_
      frame }
  have mem := ((versionWithId?_eq_some_iff hbc).mp stored.version).1
  have listed : (⟨s.versionId, modId, snapshotHash files, now⟩ : VersionRow) ∈
      b.versionsOf modId := by
    rw [versionsOf, mem_sortBy, List.mem_filter]
    exact ⟨mem, beq_self_eq_true modId⟩
  exact ⟨_, List.mem_map_of_mem listed, rfl, stored.written.symm⟩

end Archive

/-! ### The action -/

namespace Action

open Archive

variable {access : Access} {a b : Archive} {modId : RowId} {files : List SourceFile}

/-- A snapshot that the clock does not stop fails, if it does, with a fault of the archive. -/
theorem exists_cause_of_fails_snapshot (early : access.now ≤ Access.latestTime)
    {failure : Failure} (fails : (snapshot modId files).Fails access a failure b) :
    ∃ cause, failure = .database cause := by
  rw [snapshot, versionWithHash, fails_bind_iff, fails_read_iff] at fails
  obtain ⟨-, rfl, -⟩ | ⟨found, c, looked, fails⟩ := fails
  · exact ⟨_, rfl⟩
  · obtain ⟨tables, rfl, rfl⟩ := ends_read_iff.mp looked
    cases new : c.versionByHash? (snapshotHash files) with
    | some v => simp [new, fails_bind_iff] at fails
    | none =>
      rw [new, commitVersion, fails_bind_iff] at fails
      obtain fails | ⟨s, d, -, fails⟩ := fails
      · obtain ⟨-, ⟨-, rfl⟩ | ⟨-, h⟩⟩ := fails_write_iff.mp fails
        · exact ⟨_, rfl⟩
        · rw [new] at h
          obtain (⟨obstacle, -, rfl⟩ | ⟨late, -⟩) | ⟨fault, -, rfl⟩ :=
            Access.hinders_of_change tables h
          · exact ⟨_, rfl⟩
          · exact absurd late (Int.not_lt.mpr early)
          · exact ⟨_, rfl⟩
      · split at fails <;> simp [fails_bind_iff] at fails

end Action

namespace Archive

/-- A snapshot of files whose hash is new, in an archive that is reached. It succeeds exactly if
the right to write can be had and the version is admitted, for which without a rule only the mod
has to be there; what it leaves is then the version with the first line of every key of a file,
counted and in order, and nothing else but the time of the mod and the counters. If the mod is not
there or a rule refuses any of the inserts, that is a fault of the archive. And whatever it fails
of, the archive is left as it was, the counters included, so that the same is open to it again. -/
theorem Reached.snapshot_whole_or_nothing {tick : Millis → Millis → Prop} {now : Millis}
    {a : Archive} (reached : a.Reached tick now) (tables : a.layout.hasTables = true)
    (modId : RowId) {files : List SourceFile}
    (new : a.versionByHash? (snapshotHash files) = none) (access : Access) :
    let act := Action.snapshot modId files
    ((∃ s b, act.Ends access a s b) ↔ access.CanWrite ∧ a.Admits modId files) ∧
    (a.rules = [] → (a.Admits modId files ↔ ∃ m ∈ a.mods.rows, m.id = modId)) ∧
    (∀ s b, act.Ends access a s b → a.Records modId files access.now s b) ∧
    (access.now ≤ Access.latestTime → ¬ a.Admits modId files →
      ∃ cause, act.Fails access a (.database cause) a) ∧
    ∀ failure b, act.Fails access a failure b →
      b = a ∧ ∀ access', act access' b = act access' a := by
  intro act
  have ha := reached.isConsistent
  have current := ha.layout_eq_current tables
  have ends {s : Snapshot} {b : Archive} : act.Ends access a s b ↔
      access.CanWrite ∧ a.addVersion modId files access.now = .ok (s, b) := by
    rw [← Action.ends_snapshotChecked_iff_snapshot, Action.ends_snapshotChecked_iff]
    simp [tables, new, Access.CanWrite, and_assoc]
  have succeeds : (∃ s b, act.Ends access a s b) ↔ access.CanWrite ∧ a.Admits modId files := by
    rw [← exists_addVersion_iff access.now ha current new]
    simp only [ends, exists_and_left]
  refine ⟨succeeds, admits_iff_of_rules, ?_, ?_, ?_⟩
  · intro s b stored
    exact records_of_addVersion ha (ends.mp stored).2
  · intro early refused
    cases result : (act access a).result with
    | ok s => exact absurd (succeeds.mp ⟨s, _, result, rfl⟩).2 refused
    | error failure =>
      have fails : act.Fails access a failure (act access a).archive := ⟨result, rfl⟩
      obtain ⟨cause, rfl⟩ := Action.exists_cause_of_fails_snapshot early fails
      have same := Action.archive_of_fails_snapshot fails
      exact ⟨cause, result, same⟩
  · intro failure b fails
    obtain rfl := Action.archive_of_fails_snapshot fails
    exact ⟨rfl, fun _ => rfl⟩

/-- Of two files of one name, of which the first lacks a text and both repeat a key, two entries
are recorded and four ids used up; for a mod that is not there nothing is. -/
theorem Reached.snapshot_whole_or_nothing_of_repeated :
    ∃ a : Archive, a.Reached (· ≤ ·) 1 ∧
      let files : List SourceFile :=
        [⟨"a.yml", [⟨"k", none⟩, ⟨"k:", none⟩, ⟨"l", none⟩], ["X", "Y"]⟩,
          ⟨"a.yml", [⟨"l", none⟩, ⟨" k ", none⟩], ["Z", "V"]⟩]
      (∃ s b, (Action.snapshot 1 files).Ends { now := 2 } a s b ∧ a.Records 1 files 2 s b ∧
        s.entriesWritten = 2 ∧ b.entries.lastId = 4) ∧
      ∃ cause, (Action.snapshot 2 files).Fails { now := 2 } a (.database cause) a := by
  let s : Store := { settings := {} }
  let files : List SourceFile :=
    [⟨"a.yml", [⟨"k", none⟩, ⟨"k:", none⟩, ⟨"l", none⟩], ["X", "Y"]⟩,
      ⟨"a.yml", [⟨"l", none⟩, ⟨" k ", none⟩], ["Z", "V"]⟩]
  obtain ⟨a, found, tables, rules, mods, new, id⟩ :
      ∃ a ∈ (s.operateAll [.ensureMod "Alpha" none]).archive? 0, a.layout.hasTables = true ∧
        a.rules = [] ∧ a.mods.rows = [⟨1, "Alpha", 1⟩] ∧
        a.versionByHash? (snapshotHash files) = none ∧ a.entries.lastId = 0 := by
    decide +kernel
  have reached : a.Reached (· ≤ ·) 1 :=
    ⟨_, 0, s.reached_operateAll [.ensureMod "Alpha" none], found⟩
  have early : (2 : Millis) ≤ Access.latestTime := by decide
  obtain ⟨succeeds, admits, records, -, -⟩ :=
    reached.snapshot_whole_or_nothing tables 1 new { now := 2 }
  obtain ⟨-, admits', -, fails, -⟩ :=
    reached.snapshot_whole_or_nothing tables 2 new { now := 2 }
  obtain ⟨t, b, ends⟩ := succeeds.mpr ⟨⟨early, rfl⟩, (admits rules).mpr (by simp [mods])⟩
  have recorded := records t b ends
  have written : t.entriesWritten = 2 := by
    have contents := congrArg List.length recorded.stored.contents
    rw [List.length_map, List.length_map, ← recorded.stored.written] at contents
    rw [contents]
    decide +kernel
  have counted : b.entries.lastId = 4 := by
    rw [recorded.counted, id]
    decide +kernel
  exact ⟨a, reached, ⟨t, b, ends, recorded, written, counted⟩,
    fails early fun admitted => absurd ((admits' rules).mp admitted) (by simp [mods])⟩

end Archive

end LocalizationMemory
