import LocalizationMemory.Proofs.ReadBack

/-!
# Updates converge

Where the newest version of a mod holds every line of the files, a comparison finds
nothing dirty and every entry keeps the rendering that is read back for it. An update
leaves an archive in this state if the texts of its files are new, or if the newest
version of the mod held their lines before. Then the same update again asks no translator,
finds the same version and writes the same texts.

This is not so where the files have the texts of a version with other keys: a version
is known by its texts alone, so renamed keys get no version of their own, and the next
comparison finds them new again.

## Main definitions

* `Archive.Stable` — files are up to date, and given texts are written for them

## Main results

* `Archive.classifyEntry_of_latest`, `Archive.outputs_of_latest` — what a comparison with
  a version that holds every line finds, and what is written then
* `Action.exists_update_of_isUpToDate` — how an update that finds nothing dirty ends
* `Archive.getD_last_of_latest` — archiving what was written changes nothing that is read
* `Archive.Settled.stable`, `Archive.stable_of_latest` — what an update leaves is stable
* `Action.update_converges` — an update and the same one again
* `Action.update_renamed_not_converging` — renamed keys are found new again
-/

namespace LocalizationMemory

variable {access : Access} {a b : Archive} {modName language : String}
  {files : List SourceFile} {v : VersionRow}

/-! ### Comparing with a version that holds every line -/

namespace Archive

section Latest

variable (language) (ha : a.Consistent) (latest : a.latestVersionNamed? modName = some v)
  (holds : a.Holds v.id files) (proper : ProperFiles files) {f : SourceFile} (hf : f ∈ files)

include ha latest holds proper hf

/-- An entry whose line the newest version holds is clean, and keeps what is read back
for its key. -/
theorem classifyEntry_of_latest {p : KeyInfo × String} (hp : p ∈ f.pairs) :
    (classifyEntry (a.archivedEntries modName f.filename language) p.1 p.2).status.isDirty =
        false ∧
      (classifyEntry (a.archivedEntries modName f.filename language) p.1 p.2).rendering =
        lastRendering? (a.renderingHistory v.modId f.filename language)
          (Key.normalize p.1.keyPart) := by
  rw [archivedEntries_of_latest latest, proper.baseName_filename hf, classifyEntry_clean_iff]
  obtain ⟨e, he, version, file, key, text, -⟩ := holds.meaning ha hf hp
  -- Within the file the key is that of one entry, so the search finds this one.
  have distinct : ((a.entriesWithHistory v f.filename language).map (·.key)).Nodup := by
    rw [entriesWithHistory, List.map_map]
    exact ha.nodup_key_entriesOfFile v.id f.filename
  have mem : ⟨e.key, e.text,
      lastRendering? (a.renderingHistory v.modId f.filename language) e.key⟩ ∈
        a.entriesWithHistory v f.filename language :=
    List.mem_map.mpr ⟨e, mem_entriesOfFile_iff.mpr ⟨he, version, file⟩, rfl⟩
  rw [← key]
  exact ⟨_, lastWithKey?_of_mem distinct mem, text, rfl⟩

/-- What is written for a file of which the newest version holds every line is what is
read back for its keys, or the source text where there is nothing to read. -/
theorem outputs_of_latest (results : FileResults) :
    a.outputs modName language results f = f.pairs.map fun p =>
      (lastRendering? (a.renderingHistory v.modId f.filename language)
        (Key.normalize p.1.keyPart)).getD p.2 := by
  have clean : ∀ e ∈ (classify f (a.archivedEntries modName f.filename language)).entries,
      e.status.isDirty = false := by
    intro e he
    obtain ⟨p, hp, rfl⟩ := List.mem_map.mp he
    exact (classifyEntry_of_latest language ha latest holds proper hf hp).1
  rw [outputs, MergedFile.outputTexts, mergedFile, FilePlan.merge, fill_of_clean clean, classify,
    List.map_map, List.map_map]
  apply List.map_congr_left
  intro p hp
  simp [MergedEntry.outputText, PlannedEntry.merged,
    (classifyEntry_of_latest language ha latest holds proper hf hp).2]

omit hf in
/-- Nothing is dirty. -/
theorem isUpToDate_of_latest : (a.planOf modName language files).isUpToDate = true := by
  rw [Plan.isUpToDate_iff]
  intro plan hplan e he
  obtain ⟨f, hf, rfl⟩ := List.mem_map.mp hplan
  obtain ⟨p, hp, rfl⟩ := List.mem_map.mp he
  exact (classifyEntry_of_latest language ha latest holds proper hf hp).1

end Latest

end Archive

namespace Action

open Archive

/-- An update that finds nothing dirty takes place without a translator where the mod and
the version of the texts are there. It finds this version and writes what is read back. -/
theorem exists_update_of_isUpToDate (ha : a.Consistent) (current : a.layout = .current)
    (rules : a.rules = []) (named : Text.allBlank modName = false) {m : ModRow} {w : VersionRow}
    (mod : a.mod? modName = some m) (hash : a.versionByHash? (snapshotHash files) = some w)
    (upToDate : (a.planOf modName language files).isUpToDate = true) (proper : ProperFiles files)
    (early : access.now ≤ Access.latestTime) (free : access.obstacle = none)
    (remoteId : Option String) (translator : Translator) :
    ∃ outcome b, (update modName remoteId files language translator).Ends access a outcome b ∧
      outcome.summary.dirty = 0 ∧ outcome.versionId = w.id ∧
      outcome.files.map (·.outputTexts) = files.map (a.outputs modName language ∅) := by
  have tables := hasTables_of_current current
  have answered : (a.planOf modName language files).Answered translator ∅ := by
    rw [Plan.Answered, if_pos upToDate]
  have first : (ensureNamedMod modName remoteId).Ends access a m.id a :=
    ends_ensureNamedMod_iff.mpr ⟨named, tables, .inl ⟨m, mod, rfl, rfl⟩⟩
  have second : (snapshotChecked m.id files).Ends access a ⟨w.id, false, 0⟩ a :=
    ends_snapshotChecked_iff.mpr ⟨tables, .inl ⟨w, hash, rfl, rfl⟩⟩
  obtain ⟨report, b, third⟩ := exists_ends_archiveAligned w.id language
    (hasFilePaths_of_current current) rules early free files
    (alignedTexts (a.outputs modName language ∅) files)
  refine ⟨_, b, (proper.ends_update_iff ha).mpr
    ⟨current, ∅, answered, m.id, a, _, a, report, first, second, third, rfl⟩,
    eq_of_beq upToDate, rfl, ?_⟩
  rw [List.map_map]
  rfl

end Action

/-! ### The same update again -/

namespace Archive

/-- In settled files what is read back for the keys of a file are its texts. -/
theorem Settled.map_last {texts : SourceFile → List String} (proper : ProperFiles files)
    (lengths : ∀ f ∈ files, f.keys.length = (texts f).length)
    (settled : a.Settled modName language files texts v) {f : SourceFile} (hf : f ∈ files) :
    (f.pairs.map fun p => (lastRendering? (a.renderingHistory v.modId f.filename language)
      (Key.normalize p.1.keyPart)).getD p.2) = texts f := by
  apply List.ext_getElem
  · rw [List.length_map, ← lengths f hf, SourceFile.pairs, List.length_zip, ← proper.aligned f hf,
      Nat.min_self]
  · intro i hi hi'
    have hk : i < f.keys.length := by rw [lengths f hf]; exact hi'
    have mem : (f.keys[i], (texts f)[i]) ∈ f.keys.zip (texts f) := by
      rw [← List.getElem_zip (h := by rw [List.length_zip]; exact Nat.lt_min.mpr ⟨hk, hi'⟩)]
      exact List.getElem_mem _
    have read := settled.rendered f hf _ mem
    rw [List.getElem_map]
    simp [SourceFile.pairs, read]

/-- After archiving what is written for the files of the newest version, what is read back
for their keys is as before: with a version of another mod no key is reached, and where
one key alone means an entry, it is written what was read. -/
theorem getD_last_of_latest {w : VersionRow} (ha : a.Consistent) (past : a.NotAfter access.now)
    (current : a.layout = .current) (latest : a.latestVersionNamed? modName = some v)
    (holds : a.Holds v.id files) (hw : w ∈ a.versions.rows)
    (fits : w.modId = v.modId → a.MeantAlone w.id files) (proper : ProperFiles files)
    {results : FileResults} {report : ArchiveReport}
    (third : (Action.archiveAligned w.id (alignedTexts (a.outputs modName language results) files)
      files language).Ends access a report b) {f : SourceFile} (hf : f ∈ files)
    {p : KeyInfo × String} (hp : p ∈ f.pairs) :
    (lastRendering? (b.renderingHistory v.modId f.filename language)
        (Key.normalize p.1.keyPart)).getD p.2 =
      (lastRendering? (a.renderingHistory v.modId f.filename language)
        (Key.normalize p.1.keyPart)).getD p.2 := by
  by_cases same : w.modId = v.modId
  · have alone := fits same
    have mem : (p.1, (lastRendering? (a.renderingHistory v.modId f.filename language)
        (Key.normalize p.1.keyPart)).getD p.2) ∈
          f.keys.zip (a.outputs modName language results f) := by
      rw [outputs_of_latest language ha latest holds proper hf, proper.zip_map_pairs hf]
      exact List.mem_map.mpr ⟨p, hp, rfl⟩
    rcases alone.lastRendering?_cases ha current third proper
      (fun f hf => proper.length_outputs results hf) past v.modId hf mem with written | as_before
    · rw [written]
      rfl
    · rw [as_before]
  · -- What is bound is of the other version, and so of another mod.
    have unbound : ∀ e, a.InFile v.modId f.filename e → e.key = Key.normalize p.1.keyPart →
        boundText? (a.batch w.id (a.outputs modName language results) files) e.id = none := by
      intro e inFile _
      by_contra bound
      obtain ⟨e', he', version, hid⟩ := exists_entry_of_bound bound
      obtain rfl : e' = e := ha.entries.unique.eq_of_key_eq he' inFile.mem hid
      obtain ⟨u, hu, hu', ofMod⟩ := inFile.version
      have version' : u = w := ha.versions.unique.eq_of_key_eq hu hw (hu'.trans version)
      exact same (by rw [← version', ofMod])
    rw [lastRendering?_of_unbound (Action.putRenderings_of_archiveAligned current third) ha unbound]

/-- The files are up to date, and the texts that are written for them are the given ones. -/
structure Stable (a : Archive) (modName language : String) (files : List SourceFile)
    (texts : SourceFile → List String) : Prop where
  upToDate : (a.planOf modName language files).isUpToDate = true
  outputs : ∀ f ∈ files, a.outputs modName language ∅ f = texts f

/-- Settled files are stable. -/
theorem Settled.stable {texts : SourceFile → List String} (ha : a.Consistent)
    (proper : ProperFiles files) (lengths : ∀ f ∈ files, f.keys.length = (texts f).length)
    (settled : a.Settled modName language files texts v) :
    a.Stable modName language files texts where
  upToDate := isUpToDate_of_latest language ha settled.latest settled.holds proper
  outputs f hf := by
    rw [outputs_of_latest language ha settled.latest settled.holds proper hf]
    exact settled.map_last proper lengths hf

/-- What is written for files of which the newest version holds every line is stable once
it is archived. -/
theorem stable_of_latest {w : VersionRow} (ha : a.Consistent) (past : a.NotAfter access.now)
    (current : a.layout = .current) (latest : a.latestVersionNamed? modName = some v)
    (holds : a.Holds v.id files) (hw : w ∈ a.versions.rows)
    (fits : w.modId = v.modId → a.MeantAlone w.id files) (proper : ProperFiles files)
    {results : FileResults} {report : ArchiveReport}
    (third : (Action.archiveAligned w.id (alignedTexts (a.outputs modName language results) files)
      files language).Ends access a report b) :
    b.Stable modName language files (a.outputs modName language results) := by
  have hb := ha.putRenderings (Action.putRenderings_of_archiveAligned current third)
  have frame := Action.archiveAligned_frame current third
  have latestb : b.latestVersionNamed? modName = some v := by
    rw [frame]
    exact latest
  have holdsb : b.Holds v.id files := by
    rw [frame]
    exact holds
  refine ⟨isUpToDate_of_latest language hb latestb holdsb proper, ?_⟩
  intro f hf
  rw [outputs_of_latest language hb latestb holdsb proper hf,
    outputs_of_latest language ha latest holds proper hf]
  apply List.map_congr_left
  intro p hp
  exact getD_last_of_latest ha past current latest holds hw fits proper third hf hp

/-- Files without a line are up to date. -/
theorem isUpToDate_of_no_lines (empty : sourceLines files = []) :
    (a.planOf modName language files).isUpToDate = true := by
  rw [Plan.isUpToDate_iff]
  intro plan hplan e he
  obtain ⟨f, hf, rfl⟩ := List.mem_map.mp hplan
  obtain ⟨p, hp, rfl⟩ := List.mem_map.mp he
  have hline : ⟨f.filename, Key.normalize p.1.keyPart, p.2⟩ ∈ sourceLines files :=
    mem_sourceLines_iff.mpr ⟨f, hf, mem_lines_of_mem_pairs hp⟩
  rw [empty] at hline
  cases hline

/-- For files without a line nothing is written. -/
theorem outputs_of_no_lines (proper : ProperFiles files) (empty : sourceLines files = [])
    (results : FileResults) {f : SourceFile} (hf : f ∈ files) :
    a.outputs modName language results f = [] := by
  have lines : f.lines = [] := List.flatMap_eq_nil_iff.mp empty f hf
  rw [proper.lines_eq_map_mergedFile results hf, List.map_eq_nil_iff] at lines
  rw [outputs, MergedFile.outputTexts, lines, List.map_nil]

/-- Files without a line are stable in every archive. -/
theorem stable_of_no_lines (proper : ProperFiles files) (empty : sourceLines files = [])
    (results : FileResults) :
    b.Stable modName language files (a.outputs modName language results) where
  upToDate := isUpToDate_of_no_lines empty
  outputs f hf := by
    rw [outputs_of_no_lines proper empty _ hf, outputs_of_no_lines proper empty _ hf]

end Archive

namespace Action

open Archive

/-- An update of proper files is followed by the same update without a dirty entry or a
translator, with the same version and the same texts, if the texts of the files are new,
or there is none. If there is a version of these texts, the newest version of the mod has
to hold every line of the files, and no two of their keys may mean one entry in the
version of the texts, should it be of this mod. Rules, which stand for faults from outside,
must not refuse inserts. -/
theorem update_converges {time : Millis} (reached : a.Reached (· ≤ ·) time)
    (later : time ≤ access.now) (rules : a.rules = []) (proper : ProperFiles files)
    (fits : ∀ w, a.versionByHash? (snapshotHash files) = some w → sourceLines files ≠ [] →
      ∃ v, a.latestVersionNamed? modName = some v ∧ a.Holds v.id files ∧
        (w.modId = v.modId → a.MeantAlone w.id files))
    {remoteId : Option String} {translator : Translator} {outcome : UpdateOutcome}
    (ends : (update modName remoteId files language translator).Ends access a outcome b)
    {access' : Access} (early : access'.now ≤ Access.latestTime) (free : access'.obstacle = none)
    (translator' : Translator) :
    ∃ outcome' b',
      (update modName remoteId files language translator').Ends access' b outcome' b' ∧
        outcome'.summary.dirty = 0 ∧ outcome'.versionId = outcome.versionId ∧
        outcome'.files.map (·.outputTexts) = outcome.files.map (·.outputTexts) := by
  have ha := reached.isConsistent
  have past := reached.notAfter.mono later
  have hb := ha.update ends
  obtain ⟨currentb, rulesb⟩ := proper.update_frame ha ends
  obtain ⟨m, w, hm, hash, hid⟩ := proper.exists_of_update ha ends
  obtain ⟨current, results, -, modId, c, s, d, report, first, second, third, rfl⟩ :=
    (proper.ends_update_iff ha).mp ends
  obtain ⟨named, -, -⟩ := ends_ensureNamedMod_iff.mp first
  have lengths : ∀ f ∈ files, f.keys.length = (a.outputs modName language results f).length :=
    fun f hf => proper.length_outputs results hf
  have stable : b.Stable modName language files (a.outputs modName language results) := by
    by_cases empty : sourceLines files = []
    · exact stable_of_no_lines proper empty results
    · cases known : a.versionByHash? (snapshotHash files) with
      | none =>
        exact (settled_of_new ha past proper lengths current known first second third).1.stable hb
          proper lengths
      | some w' =>
        obtain ⟨v, latest, holds, alone⟩ := fits w' known empty
        obtain ⟨m', hm', -⟩ := Option.bind_eq_some_iff.mp latest
        -- The mod and the version are there, so nothing is made.
        obtain ⟨rfl, hid'⟩ := ProperFiles.archiveAligned_of_known hm' known first second
        rw [hid'] at third
        have hw := (ha.hashes.find?_eq_some_iff.mp known).1
        exact stable_of_latest ha past current latest holds hw alone proper third
  obtain ⟨outcome', b', ends', clean, version, outputs'⟩ :=
    exists_update_of_isUpToDate hb currentb (rulesb.trans rules) named hm hash stable.upToDate
      proper early free remoteId translator'
  refine ⟨outcome', b', ends', clean, version.trans hid, outputs'.trans ?_⟩
  rw [List.map_map]
  exact List.map_congr_left stable.outputs

/-- An update of texts that are known, and the same one again. -/
theorem update_converges_of_known :
    ∃ a outcome b, a.Reached (· ≤ ·) 1 ∧ (1 : Millis) ≤ 2 ∧ a.rules = [] ∧
      ProperFiles [⟨"a.yml", [⟨"k", none⟩], ["X"]⟩] ∧
      (∀ w, a.versionByHash? (snapshotHash [⟨"a.yml", [⟨"k", none⟩], ["X"]⟩]) = some w →
        sourceLines [⟨"a.yml", [⟨"k", none⟩], ["X"]⟩] ≠ [] →
          ∃ v, a.latestVersionNamed? "Alpha" = some v ∧
            a.Holds v.id [⟨"a.yml", [⟨"k", none⟩], ["X"]⟩] ∧
            (w.modId = v.modId → a.MeantAlone w.id [⟨"a.yml", [⟨"k", none⟩], ["X"]⟩])) ∧
      a.versionByHash? (snapshotHash [⟨"a.yml", [⟨"k", none⟩], ["X"]⟩]) ≠ none ∧
      (update "Alpha" none [⟨"a.yml", [⟨"k", none⟩], ["X"]⟩] "ko" (.rendering ("ko:" ++ ·))).Ends
        { now := 2 } a outcome b ∧
      ∃ outcome' b',
        (update "Alpha" none [⟨"a.yml", [⟨"k", none⟩], ["X"]⟩] "ko"
          fun _ _ => .failed "not asked").Ends { now := 3 } b outcome' b' ∧
        outcome'.summary.dirty = 0 ∧ outcome'.versionId = outcome.versionId ∧
        outcome'.files.map (·.outputTexts) = outcome.files.map (·.outputTexts) := by
  let s : Store := { settings := {} }
  let ops : List Operation :=
    [.update "Alpha" none [⟨"a.yml", [⟨"k", none⟩], ["X"]⟩] "ko" (.rendering ("ko:" ++ ·))]
  obtain ⟨a, found, rules, fits, known, succeeds⟩ : ∃ a ∈ (s.operateAll ops).archive? 0,
      a.rules = [] ∧
      (∀ w ∈ a.versionByHash? (snapshotHash [⟨"a.yml", [⟨"k", none⟩], ["X"]⟩]),
        sourceLines [⟨"a.yml", [⟨"k", none⟩], ["X"]⟩] ≠ [] →
          ∃ v ∈ a.latestVersionNamed? "Alpha", a.Holds v.id [⟨"a.yml", [⟨"k", none⟩], ["X"]⟩] ∧
            (w.modId = v.modId → a.MeantAlone w.id [⟨"a.yml", [⟨"k", none⟩], ["X"]⟩])) ∧
      a.versionByHash? (snapshotHash [⟨"a.yml", [⟨"k", none⟩], ["X"]⟩]) ≠ none ∧
      (update "Alpha" none [⟨"a.yml", [⟨"k", none⟩], ["X"]⟩] "ko" (.rendering ("ko:" ++ ·))
        { now := 2 } a).result.isOk = true := by
    decide +kernel
  have reached : a.Reached (· ≤ ·) 1 := ⟨_, 0, s.reached_operateAll ops, found⟩
  have proper : ProperFiles [⟨"a.yml", [⟨"k", none⟩], ["X"]⟩] := by decide +kernel
  obtain ⟨outcome, ends⟩ := exists_ends_of_isOk succeeds
  exact ⟨a, outcome, _, reached, by decide, rules, proper, fits, known, ends,
    update_converges reached (by decide) rules proper fits ends (by decide) rfl _⟩

/-- Files in which a key was renamed have the texts of the version before, so they get no
version of their own: after an update with a translator that answers everything, the same
update finds the key new once more. -/
theorem update_renamed_not_converging :
    ∃ a outcome b outcome' b', a.Reached (· ≤ ·) 1 ∧ a.rules = [] ∧
      ProperFiles [⟨"a.yml", [⟨"j", none⟩], ["X"]⟩] ∧
      (update "Alpha" none [⟨"a.yml", [⟨"j", none⟩], ["X"]⟩] "ko" (.rendering ("ko:" ++ ·))).Ends
        { now := 2 } a outcome b ∧
      (update "Alpha" none [⟨"a.yml", [⟨"j", none⟩], ["X"]⟩] "ko" (.rendering ("ko:" ++ ·))).Ends
        { now := 3 } b outcome' b' ∧
      outcome'.summary.dirty ≠ 0 := by
  let s : Store := { settings := {} }
  let ops : List Operation :=
    [.update "Alpha" none [⟨"a.yml", [⟨"k", none⟩], ["X"]⟩] "ko" (.rendering ("ko:" ++ ·))]
  let again := update "Alpha" none [⟨"a.yml", [⟨"j", none⟩], ["X"]⟩] "ko"
    (.rendering ("ko:" ++ ·))
  obtain ⟨a, found, rules, first, second, dirty⟩ : ∃ a ∈ (s.operateAll ops).archive? 0,
      a.rules = [] ∧ (again { now := 2 } a).result.isOk = true ∧
        (again { now := 3 } (again { now := 2 } a).archive).result.isOk = true ∧
        ∀ outcome ∈ (again { now := 3 } (again { now := 2 } a).archive).result.toOption,
          outcome.summary.dirty ≠ 0 := by
    decide +kernel
  obtain ⟨outcome, ends⟩ := exists_ends_of_isOk first
  obtain ⟨outcome', ends'⟩ := exists_ends_of_isOk second
  refine ⟨a, outcome, _, outcome', _, ⟨_, 0, s.reached_operateAll ops, found⟩, rules,
    by decide +kernel, ends, ends', dirty outcome' ?_⟩
  rw [ends'.1]
  rfl

end Action

end LocalizationMemory
