import LocalizationMemory.Proofs.Reachability
import LocalizationMemory.Proofs.Update

/-!
# Reading back what an update wrote

After an update whose texts are new, its version is the newest of the mod, and every file
is read back as it was merged: each key with its source text and with the text that was
written for it. What older versions and their renderings hold does not matter, nor what
was done at the same time, since the entries of the version are new, and so are their
renderings.

## Main definitions

* `Archive.Settled` — the newest version of a mod is that of the files, and every key is
  read back with a given text

## Main results

* `Action.settled_of_new` — archiving files whose texts are new settles them
* `Action.update_reads_back` — what is read back after an update
-/

namespace LocalizationMemory

variable {access : Access} {a b : Archive} {modName language : String}
  {files : List SourceFile}

/-- The newest version of a mod is that of the files and has their lines and no others, and
every key is read back with the text that is given for it. -/
structure Archive.Settled (a : Archive) (modName language : String) (files : List SourceFile)
    (texts : SourceFile → List String) (v : VersionRow) : Prop where
  current : a.layout = .current
  latest : a.latestVersionNamed? modName = some v
  hash : a.versionByHash? (snapshotHash files) = some v
  holds : a.Holds v.id files
  lines : ∀ e ∈ a.entries.rows, e.versionId = v.id →
    ∃ line ∈ sourceLines files, e.content = line.content
  rendered : ∀ f ∈ files, ∀ p ∈ f.keys.zip (texts f),
    lastRendering? (a.renderingHistory v.modId f.filename language) (Key.normalize p.1.keyPart) =
      some p.2

namespace Archive

/-- A version that was added holds every line of its files. -/
theorem AddedVersion.holds {modId versionId : RowId} {now : Millis} (ha : a.Consistent)
    (added : a.AddedVersion modId files now versionId b) : b.Holds versionId files := by
  intro line hline
  have mem : line.content ∈ (b.entriesOf versionId).map (·.content) := by
    rw [added.map_content_entriesOf ha]
    exact List.mem_map_of_mem hline
  obtain ⟨e, he, same⟩ := List.mem_map.mp mem
  obtain ⟨he, version⟩ := mem_entriesOf_iff.mp he
  exact ⟨e, he, version, same⟩

end Archive

/-- What is read back for a file of which the version has the entries in order are the
merged entries, each with what was written for it. -/
theorem Archive.Settled.entriesWithHistory {c : Archive} (proper : ProperFiles files)
    (results : FileResults) {v : VersionRow}
    (settled : b.Settled modName language files (c.outputs modName language results) v)
    {f : SourceFile} (hf : f ∈ files)
    (contents : (b.entriesOfFile v.id f.filename).map (·.content) = f.lines.map (·.content)) :
    b.entriesWithHistory v f.filename language =
      (c.mergedFile modName language results f).entries.map
        fun e => ⟨e.key, e.source, some e.outputText⟩ := by
  let last := lastRendering? (b.renderingHistory v.modId f.filename language)
  -- From the entries to the lines of the file, and from there to the merged entries.
  calc b.entriesWithHistory v f.filename language
      = ((b.entriesOfFile v.id f.filename).map (·.content)).map
          fun c => ⟨c.2.1, c.2.2, last c.2.1⟩ := by
        rw [List.map_map]
        rfl
    _ = f.lines.map fun line => ⟨line.key, line.text, last line.key⟩ := by
        rw [contents, List.map_map]
        rfl
    _ = (c.mergedFile modName language results f).entries.map
          fun e => ⟨e.key, e.source, last e.key⟩ := by
        have lines : f.lines = (c.mergedFile modName language results f).entries.map
            fun e => (⟨f.filename, e.key, e.source⟩ : SourceLine) :=
          proper.lines_eq_map_mergedFile results hf
        rw [lines, List.map_map]
        rfl
    _ = _ := by
        apply List.map_congr_left
        intro e he
        have hp : ((⟨e.key, e.lineNum⟩ : KeyInfo), e.outputText) ∈
            f.keys.zip (c.outputs modName language results f) := by
          rw [proper.zip_outputs results hf]
          exact List.mem_map_of_mem he
        have rendered := settled.rendered f hf _ hp
        rw [proper.normalize_key_mergedFile results hf he] at rendered
        exact congrArg (ArchivedEntry.mk e.key e.source) rendered

namespace Action

open Archive

/-- Archiving files whose texts are new settles them, and leaves their entries in the
order of their lines. -/
theorem settled_of_new (ha : a.Consistent) (past : a.NotAfter access.now)
    (proper : ProperFiles files) {texts : SourceFile → List String}
    (lengths : ∀ f ∈ files, f.keys.length = (texts f).length) (current : a.layout = .current)
    (new : a.versionByHash? (snapshotHash files) = none) {remoteId : Option String}
    {modId : RowId} {c d : Archive} {s : Snapshot} {report : ArchiveReport}
    (first : (ensureNamedMod modName remoteId).Ends access a modId c)
    (second : (snapshotChecked modId files).Ends access c s d)
    (third : (archiveAligned s.versionId (alignedTexts texts files) files language).Ends access d
      report b) :
    b.Settled modName language files texts ⟨s.versionId, modId, snapshotHash files, access.now⟩ ∧
      (∀ f ∈ files,
        (b.entriesOfFile s.versionId f.filename).map (·.content) = f.lines.map (·.content)) ∧
      report = ⟨(files.flatMap texts).length, [], []⟩ := by
  obtain ⟨⟨m, hm, rfl⟩, frame⟩ := ensureNamedMod_frame first
  have hc := ha.ensureNamedMod first
  have pastc := past.ensureNamedMod first
  have currentc : c.layout = .current := by rw [frame]; exact current
  have newc : c.versionByHash? (snapshotHash files) = none := by rw [frame]; exact new
  -- The hash is new, so a version is stored and not found.
  have stored : c.addVersion m.id files access.now = .ok (s, d) := by
    obtain ⟨-, ⟨v, hv, -⟩ | ⟨-, -, -, stored⟩⟩ := ends_snapshotChecked_iff.mp second
    · rw [newc] at hv
      cases hv
    · exact stored
  have added := (addedVersion_of_addVersion hc proper stored).1
  have hd := hc.addVersion stored
  have pastd := pastc.addVersion stored
  have currentd : d.layout = .current := added.layout.trans currentc
  have holds := added.holds hc
  -- Archiving changes renderings alone, so what was stored is as it was left.
  have frameb := archiveAligned_frame currentd third
  refine ⟨⟨?_, ?_, ?_, ?_, ?_, ?_⟩, ?_, ?_⟩
  · rw [frameb]
    exact currentd
  · have ids := added.map_id_mod? modName
    rw [hm, Option.map_some] at ids
    obtain ⟨m', hm', hid⟩ := Option.map_eq_some_iff.mp ids
    rw [frameb]
    exact (latestVersionNamed?_eq_some_iff hd).mpr ⟨m', hm', hid, added.isNewest hc pastc⟩
  · rw [frameb]
    exact added.versionByHash? newc
  · rw [frameb]
    exact holds
  · rw [frameb]
    exact fun e he version => added.exists_line hc he version
  · intro f hf p hp
    exact holds.lastRendering?_of_new hd currentd third proper lengths added.mem_versions rfl hf hp
      pastd fun e he version t ht => added.entryId_ne hc he version ht
  · intro f hf
    rw [frameb]
    exact added.map_content_entriesOfFile hc proper hf
  · exact holds.report_eq hd currentd third proper lengths

/-- After an update of proper files whose texts are new, its version is the newest of the
mod; the merged files are the files as they were given; each file is read back as it was
merged, every key with its source text and with what was written for it; and the report
counts every entry and has nothing that was left out. -/
theorem update_reads_back {tick : Millis → Millis → Prop} {time : Millis}
    (reached : a.Reached tick time) (past : a.NotAfter access.now) (proper : ProperFiles files)
    {remoteId : Option String} {translator : Translator} {outcome : UpdateOutcome}
    (ends : (update modName remoteId files language translator).Ends access a outcome b)
    (new : a.versionByHash? (snapshotHash files) = none) :
    (∃ m v, b.mod? modName = some m ∧ v.id = outcome.versionId ∧
      ∀ access', (latestVersion m.id).Ends access' b (some v) b) ∧
    outcome.files.map (·.toSourceFile) = files ∧
    (∀ file ∈ outcome.files, ∀ access',
      (archivedEntries modName file.filename language).Ends access' b
        (file.entries.map fun e => ⟨e.key, e.source, some e.outputText⟩) b) ∧
    outcome.archive = ⟨(outcome.files.flatMap (·.entries)).length, [], []⟩ := by
  have ha := reached.isConsistent
  obtain ⟨current, results, -, modId, c, s, d, report, first, second, third, rfl⟩ :=
    (proper.ends_update_iff ha).mp ends
  have hb := ha.update ends
  obtain ⟨settled, contents, reported⟩ := settled_of_new ha past proper
    (fun f hf => proper.length_outputs results hf) current new first second third
  obtain ⟨m, hm, hv⟩ := Option.bind_eq_some_iff.mp settled.latest
  have tables := hasTables_of_current settled.current
  refine ⟨⟨m, ⟨s.versionId, modId, snapshotHash files, access.now⟩, hm, rfl, fun access' => ?_⟩,
    ?_, ?_, ?_⟩
  · exact ends_read_iff.mpr ⟨tables, hv.symm, rfl⟩
  · rw [List.map_map]
    refine (List.map_congr_left fun f hf => ?_).trans (List.map_id files)
    exact proper.toSourceFile_merge hf _ results
  · -- A file is read back under its base name, which is its name if that is proper.
    intro file hfile access'
    obtain ⟨f, hf, rfl⟩ := List.mem_map.mp hfile
    refine (ends_archivedEntries_iff hb).mpr ⟨settled.current, ?_, rfl⟩
    have name : (a.mergedFile modName language results f).filename = f.filename := rfl
    rw [archivedEntries_of_latest settled.latest, name, proper.baseName_filename hf]
    exact (settled.entriesWithHistory proper results hf (contents f hf)).symm
  · have written : files.flatMap (a.outputs modName language results) =
        (files.flatMap fun f => (a.mergedFile modName language results f).entries).map
          (·.outputText) := by
      rw [List.map_flatMap]
      rfl
    rw [reported, List.flatMap_map, written, List.length_map]

/-- An update of a text that has changed is read back. -/
theorem update_reads_back_of_changed :
    ∃ a outcome b, a.Reached (· ≤ ·) 1 ∧ a.NotAfter 2 ∧
      ProperFiles [⟨"a.yml", [⟨"k", none⟩], ["Y"]⟩] ∧
      (update "Alpha" none [⟨"a.yml", [⟨"k", none⟩], ["Y"]⟩] "ko" (.rendering ("ko:" ++ ·))).Ends
        { now := 2 } a outcome b ∧
      a.versionByHash? (snapshotHash [⟨"a.yml", [⟨"k", none⟩], ["Y"]⟩]) = none ∧
      (∃ m v, b.mod? "Alpha" = some m ∧ v.id = outcome.versionId ∧
        ∀ access', (latestVersion m.id).Ends access' b (some v) b) ∧
      outcome.files.map (·.toSourceFile) = [⟨"a.yml", [⟨"k", none⟩], ["Y"]⟩] ∧
      (∀ file ∈ outcome.files, ∀ access',
        (archivedEntries "Alpha" file.filename "ko").Ends access' b
          (file.entries.map fun e => ⟨e.key, e.source, some e.outputText⟩) b) ∧
      outcome.archive = ⟨(outcome.files.flatMap (·.entries)).length, [], []⟩ := by
  let s : Store := { settings := {} }
  let ops : List Operation :=
    [.update "Alpha" none [⟨"a.yml", [⟨"k", none⟩], ["X"]⟩] "ko" (.rendering ("ko:" ++ ·))]
  obtain ⟨a, found, succeeds, new⟩ : ∃ a ∈ (s.operateAll ops).archive? 0,
      (update "Alpha" none [⟨"a.yml", [⟨"k", none⟩], ["Y"]⟩] "ko" (.rendering ("ko:" ++ ·))
        { now := 2 } a).result.isOk = true ∧
      a.versionByHash? (snapshotHash [⟨"a.yml", [⟨"k", none⟩], ["Y"]⟩]) = none := by
    decide +kernel
  have reached : a.Reached (· ≤ ·) 1 := ⟨_, 0, s.reached_operateAll ops, found⟩
  have past : a.NotAfter 2 := reached.notAfter.mono (by decide)
  have proper : ProperFiles [⟨"a.yml", [⟨"k", none⟩], ["Y"]⟩] := by decide +kernel
  obtain ⟨outcome, ends⟩ := exists_ends_of_isOk succeeds
  exact ⟨a, outcome, _, reached, past, proper, ends, new,
    update_reads_back reached past proper ends new⟩

end Action

end LocalizationMemory
