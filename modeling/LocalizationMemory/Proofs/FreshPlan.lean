import LocalizationMemory.Proofs.Placement
import LocalizationMemory.Proofs.Reachability
import LocalizationMemory.Proofs.Update

/-!
# A plan right after a snapshot

A snapshot stores the lines of a file under the name that was given. A comparison looks for
them under the base name, without directories. So what a plan finds right after a snapshot
depends on names alone: a line is unchanged exactly if the files that were stored have the
same line under its base name. Where no name holds a slash the plan is clean; where a file
is named with its directory, its lines are new again, unless another file of the same
snapshot lends them its own.

## Main definitions

* `SourceLine.atBaseName` — a line under the name by which it is looked for
* `PlannedEntry.Finds` — what a plan finds of a line among those that were stored

## Main results

* `Archive.AddedVersion.exists_archived_iff` — what is read back of a new version
* `Archive.Reached.fresh_plan_clean_iff` — when a plan right after a snapshot is clean
* `Archive.Reached.fresh_plan_not_clean` — it is not where a name holds a slash
-/

namespace LocalizationMemory

/-- A line under the name by which it is looked for. -/
def SourceLine.atBaseName (l : SourceLine) : SourceLine := { l with file := baseName l.file }

/-- A planned entry says what was found of a line among stored ones: it is new if its key is not
under the base name of its file, and unchanged if the key and the text are. -/
structure PlannedEntry.Finds (stored : List SourceLine) (line : SourceLine) (e : PlannedEntry) :
    Prop where
  key : e.key = line.key
  source : e.source = line.text
  new_iff : e.status = .new ↔ ∀ l ∈ stored, l.file = baseName line.file → l.key ≠ line.key
  unchanged_iff : e.status = .unchanged ↔ line.atBaseName ∈ stored

namespace Archive

variable {a b : Archive} {now : Millis} {m : ModRow} {modName : String}
  {files : List SourceFile} {versionId : RowId}

/-- In what is read back of a file every key stands once. -/
theorem Consistent.nodup_key_archivedEntries (h : a.Consistent) (modName path language : String) :
    ((a.archivedEntries modName path language).map (·.key)).Nodup := by
  cases latest : a.latestVersionNamed? modName with
  | none => simp [archivedEntries, latest]
  | some v =>
    rw [archivedEntries_of_latest latest, entriesWithHistory, List.map_map]
    exact h.nodup_key_entriesOfFile v.id (baseName path)

namespace AddedVersion

/-- A version that is stored when nothing is of a later time is the newest by the name of its
mod. -/
theorem latestVersionNamed? (ha : a.Consistent) (hb : b.Consistent) (past : a.NotAfter now)
    (mod : a.mod? modName = some m) (added : a.AddedVersion m.id files now versionId b) :
    b.latestVersionNamed? modName = some ⟨versionId, m.id, snapshotHash files, now⟩ := by
  have ids := added.map_id_mod? modName
  rw [mod] at ids
  obtain ⟨m', hm', id⟩ := Option.map_eq_some_iff.mp ids
  exact (latestVersionNamed?_eq_some_iff hb).mpr ⟨m', hm', id, added.isNewest ha past⟩

/-- What is read back of a new version are the lines under the base name. -/
theorem exists_archived_iff (ha : a.Consistent) (hb : b.Consistent) (past : a.NotAfter now)
    (mod : a.mod? modName = some m) (added : a.AddedVersion m.id files now versionId b)
    (language : String) {path key text : String} :
    (∃ e ∈ b.archivedEntries modName path language, e.key = key ∧ e.source = text) ↔
      ⟨baseName path, key, text⟩ ∈ sourceLines files := by
  have contents := added.map_content_entriesOfFile_filter ha (baseName path)
  rw [archivedEntries_of_latest (added.latestVersionNamed? ha hb past mod), entriesWithHistory]
  constructor
  · rintro ⟨_, he, rfl, rfl⟩
    obtain ⟨row, hrow, rfl⟩ := List.mem_map.mp he
    have mem : row.content ∈ ((sourceLines files).filter (·.file == baseName path)).map
        (·.content) := by
      rw [← contents]
      exact List.mem_map_of_mem hrow
    obtain ⟨⟨file, key, text⟩, hline, same⟩ := List.mem_map.mp mem
    obtain ⟨-, rfl, rfl⟩ := EntryRow.content_eq_iff.mp same.symm
    obtain ⟨hline, named⟩ := List.mem_filter.mp hline
    exact eq_of_beq named ▸ hline
  · intro hline
    have mem : SourceLine.content ⟨baseName path, key, text⟩ ∈
        (b.entriesOfFile versionId (baseName path)).map (·.content) := by
      rw [contents]
      exact List.mem_map_of_mem (List.mem_filter.mpr ⟨hline, beq_self_eq_true _⟩)
    obtain ⟨row, hrow, same⟩ := List.mem_map.mp mem
    obtain ⟨-, rfl, rfl⟩ := EntryRow.content_eq_iff.mp same
    exact ⟨_, List.mem_map_of_mem hrow, rfl, rfl⟩

/-- What a comparison with a new version finds of a line. -/
theorem finds_classifyEntry (ha : a.Consistent) (hb : b.Consistent) (past : a.NotAfter now)
    (mod : a.mod? modName = some m) (added : a.AddedVersion m.id files now versionId b)
    (language : String) (f : SourceFile) (p : KeyInfo × String) :
    (classifyEntry (b.archivedEntries modName f.filename language) p.1 p.2).Finds
      (sourceLines files) ⟨f.filename, Key.normalize p.1.keyPart, p.2⟩ := by
  let history := b.archivedEntries modName f.filename language
  have judges := judges_classifyEntry history p
  have last : ∀ key e, IsLast history key e ↔ e ∈ history ∧ e.key = key :=
    fun _ _ => isLast_iff_of_nodup (hb.nodup_key_archivedEntries modName f.filename language)
  have found : ∀ key text, (∃ e ∈ history, e.key = key ∧ e.source = text) ↔
      ⟨baseName f.filename, key, text⟩ ∈ sourceLines files :=
    fun _ _ => added.exists_archived_iff ha hb past mod language
  refine ⟨judges.key, judges.source, ?_, ?_⟩
  · rw [judges.new_iff, judges.key]
    constructor
    · rintro absent ⟨_, key, text⟩ hline rfl rfl
      obtain ⟨e, he, same, -⟩ := (found _ text).mpr hline
      exact absent e he same
    · intro absent e he same
      exact absent _ ((found _ _).mp ⟨e, he, same, rfl⟩) rfl rfl
  · rw [judges.unchanged_iff, judges.key, judges.source, SourceLine.atBaseName, ← found]
    simp only [last, and_assoc]

/-- The files of a new version are unchanged exactly if it has each of their lines under the base
name of its file. -/
theorem isUpToDate_planOf_iff (ha : a.Consistent) (hb : b.Consistent) (past : a.NotAfter now)
    (mod : a.mod? modName = some m) (added : a.AddedVersion m.id files now versionId b)
    (language : String) : (b.planOf modName language files).isUpToDate = true ↔
      ∀ line ∈ sourceLines files, line.atBaseName ∈ sourceLines files := by
  have finds := added.finds_classifyEntry ha hb past mod language
  rw [Plan.isUpToDate_iff]
  constructor
  · intro clean line hline
    obtain ⟨f, hf, hline⟩ := mem_sourceLines_iff.mp hline
    obtain ⟨p, hp, rfl⟩ := List.mem_map.mp hline
    have unchanged := clean _ (List.mem_map_of_mem hf) _ (List.mem_map_of_mem hp)
    exact (finds f p).unchanged_iff.mp (EntryStatus.isDirty_eq_false_iff.mp unchanged)
  · intro stored fp hfp e he
    obtain ⟨f, hf, rfl⟩ := List.mem_map.mp hfp
    obtain ⟨p, hp, rfl⟩ := List.mem_map.mp he
    have hline := mem_sourceLines_iff.mpr ⟨f, hf, mem_lines_of_mem_pairs hp⟩
    exact EntryStatus.isDirty_eq_false_iff.mpr ((finds f p).unchanged_iff.mpr (stored _ hline))

end AddedVersion

end Archive

/-! ### The plan -/

open Archive in
/-- A plan made right after a new snapshot, for any language, finds each line unchanged exactly if
the snapshot has it under the base name of its file, so the plan is clean exactly if that is so of
all lines; in particular, if no name holds a slash. -/
theorem Archive.Reached.fresh_plan_clean_iff {now : Millis} {a b : Archive} {access : Access}
    {modName : String} {m : ModRow} {files : List SourceFile} {s : Snapshot}
    (reached : a.Reached (· ≤ ·) now) (past : now ≤ access.now) (mod : a.mod? modName = some m)
    (distinct : DistinctFiles files)
    (ends : (Action.snapshotChecked m.id files).Ends access a s b) (created : s.created = true)
    (language : String) :
    ∃ plan, (∀ access', (Action.plan modName files language).Ends access' b plan b) ∧
      List.Forall₂ (fun f fp => fp.filename = f.filename ∧
        List.Forall₂ (PlannedEntry.Finds (sourceLines files)) f.lines fp.entries)
          files plan.files ∧
      (plan.summary.total = plan.summary.unchanged ∧ plan.requests = [] ↔
        ∀ line ∈ sourceLines files, line.atBaseName ∈ sourceLines files) ∧
      ((∀ f ∈ files, ∀ c ∈ f.filename.toList, c ≠ '/' ∧ c ≠ '\\') →
        plan.summary.total = plan.summary.unchanged ∧ plan.requests = []) := by
  have ha := reached.isConsistent
  have notAfter := reached.notAfter.mono past
  obtain ⟨tables, ⟨v, -, rfl, -⟩ | ⟨-, -, -, stored⟩⟩ := Action.ends_snapshotChecked_iff.mp ends
  · cases created
  have added := (addedVersion_of_distinct ha distinct stored).1
  have hb : b.Consistent := ha.addVersion stored
  have current : b.layout = .current := added.layout.trans (ha.layout_eq_current tables)
  have finds := added.finds_classifyEntry ha hb notAfter mod language
  let plan := b.planOf modName language files
  have clean_iff : plan.summary.total = plan.summary.unchanged ∧ plan.requests = [] ↔
      ∀ line ∈ sourceLines files, line.atBaseName ∈ sourceLines files := by
    rw [plan.total_eq_unchanged_iff, plan.requests_eq_nil_iff, and_self]
    exact added.isUpToDate_planOf_iff ha hb notAfter mod language
  refine ⟨plan, fun _ => (Action.ends_plan_iff hb).mpr ⟨fun _ => current, rfl, rfl⟩, ?_, clean_iff,
    fun plain => clean_iff.mpr fun line hline => ?_⟩
  · refine List.forall₂_map_right_iff.mpr (List.forall₂_same.mpr fun f _ => ⟨rfl, ?_⟩)
    exact List.forall₂_map_left_iff.mpr
      (List.forall₂_map_right_iff.mpr (List.forall₂_same.mpr fun p _ => finds f p))
  · obtain ⟨f, hf, own⟩ := mem_sourceLines_iff.mp hline
    have named : baseName line.file = line.file := by
      rw [file_of_mem_lines own]
      exact baseName_eq_self (plain f hf)
    rw [SourceLine.atBaseName, named]
    exact hline

/-- Two files of plain names, stored in the millisecond in which their mod was made: a key with
blanks and a colon, and a key without a text. -/
theorem Archive.Reached.fresh_plan_clean_iff_of_plain_names :
    ∃ (a b : Archive) (m : ModRow) (s : Snapshot) (plan : Plan), a.Reached (· ≤ ·) 1 ∧
      a.mod? "Alpha" = some m ∧
      (Action.snapshotChecked m.id [⟨"a.yml", [⟨" k:0 ", none⟩, ⟨"l", none⟩], ["X"]⟩,
        ⟨"b.yml", [⟨"k", none⟩], ["Y"]⟩]).Ends { now := 1 } a s b ∧ s.created = true ∧
      (Action.plan "Alpha" [⟨"a.yml", [⟨" k:0 ", none⟩, ⟨"l", none⟩], ["X"]⟩,
        ⟨"b.yml", [⟨"k", none⟩], ["Y"]⟩] "ko").Ends { now := 9 } b plan b ∧
      plan.summary.total = plan.summary.unchanged ∧ plan.requests = [] := by
  let s : Store := { settings := {} }
  let ops : List Operation := [.ensureMod "Alpha" none]
  let files : List SourceFile := [⟨"a.yml", [⟨" k:0 ", none⟩, ⟨"l", none⟩], ["X"]⟩,
    ⟨"b.yml", [⟨"k", none⟩], ["Y"]⟩]
  obtain ⟨a, found, m, mod, result⟩ : ∃ a ∈ (s.operateAll ops).archive? 0,
      ∃ m ∈ a.mod? "Alpha",
        (Action.snapshotChecked m.id files { now := 1 } a).result = .ok ⟨1, true, 2⟩ := by
    decide +kernel
  have reached : a.Reached (· ≤ ·) 1 := ⟨_, 0, s.reached_operateAll ops, found⟩
  have distinct : DistinctFiles files := by decide +kernel
  have plain : ∀ f ∈ files, ∀ c ∈ f.filename.toList, c ≠ '/' ∧ c ≠ '\\' := by simp [files]
  obtain ⟨plan, planned, -, -, clean⟩ := Archive.Reached.fresh_plan_clean_iff reached
    (Int.le_refl 1) mod distinct ⟨result, rfl⟩ rfl "ko"
  exact ⟨a, _, m, _, plan, reached, mod, ⟨result, rfl⟩, rfl, planned _, clean plain⟩

/-- A file that is named with its directory is stored and not found: its line is new again. -/
theorem Archive.Reached.fresh_plan_not_clean :
    ∃ (a b : Archive) (m : ModRow) (s : Snapshot) (plan : Plan), a.Reached (· ≤ ·) 1 ∧
      a.mod? "Alpha" = some m ∧ DistinctFiles [⟨"dir/a.yml", [⟨"k", none⟩], ["X"]⟩] ∧
      (Action.snapshotChecked m.id [⟨"dir/a.yml", [⟨"k", none⟩], ["X"]⟩]).Ends { now := 2 } a s b ∧
      s.created = true ∧
      (Action.plan "Alpha" [⟨"dir/a.yml", [⟨"k", none⟩], ["X"]⟩] "ko").Ends { now := 3 } b plan b ∧
      plan.summary = ⟨1, 0, 0⟩ ∧ plan.requests = [⟨"dir/a.yml", ["X"]⟩] := by
  let s : Store := { settings := {} }
  let ops : List Operation := [.ensureMod "Alpha" none]
  let files : List SourceFile := [⟨"dir/a.yml", [⟨"k", none⟩], ["X"]⟩]
  obtain ⟨a, found, m, mod, result, left, plan, -, planned, summary, requests⟩ :
      ∃ a ∈ (s.operateAll ops).archive? 0, ∃ m ∈ a.mod? "Alpha",
        let b := (Action.snapshotChecked m.id files { now := 2 } a).archive
        (Action.snapshotChecked m.id files { now := 2 } a).result = .ok ⟨1, true, 1⟩ ∧
          (Action.plan "Alpha" files "ko" { now := 3 } b).archive = b ∧
          ∃ plan ∈ (Action.plan "Alpha" files "ko" { now := 3 } b).result.toOption,
            (Action.plan "Alpha" files "ko" { now := 3 } b).result = .ok plan ∧
              plan.summary = ⟨1, 0, 0⟩ ∧ plan.requests = [⟨"dir/a.yml", ["X"]⟩] := by
    decide +kernel
  exact ⟨a, _, m, _, plan, ⟨_, 0, s.reached_operateAll ops, found⟩, mod, by decide +kernel,
    ⟨result, rfl⟩, rfl, ⟨planned, left⟩, summary, requests⟩

end LocalizationMemory
