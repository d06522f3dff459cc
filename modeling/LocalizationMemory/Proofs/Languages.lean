import LocalizationMemory.Proofs.Archive.Growth
import LocalizationMemory.Proofs.Failure
import LocalizationMemory.Proofs.Runs

/-!
# Updates into several languages

Mods are updated from an empty archive in any order, each into any languages, at any time,
and some updates fail. An entry is compared by its source text alone, so one that has not
changed is not translated again, whatever the language: where no version of the mod has a
rendering of its key into the language, it is left without one, and its source text is
written and archived in place of one. Nothing else goes without a rendering. So if a mod
has a language of its own, into which it is always updated, every entry of it is rendered,
and in words of the language.

## Main definitions

* `UpdateCall`, `Archive.afterUpdates` — updates one after the other, from an empty archive
* `Translator.AnswersIn` — all that is asked is answered in words of the language
* `Archive.HasText` — the newest version of a mod has the text for a key
* `Archive.HasRendering` — some version of a mod has a rendering of a key
* `Archive.Voiced` — every entry has a rendering into the language of its mod

## Main results

* `Archive.rendering_eq_none_iff` — which entries an update leaves without a rendering
* `ProperFiles.exists_archived` — what is archived for the entries of an update
* `Archive.Voiced.update`, `Archive.voiced_afterUpdates` — archives of mods with one language
* `UpdateCall.renderings_of_ends` — the renderings of an update after any others
* `UpdateCall.left_without_rendering` — a mod that is updated into a second language
-/

namespace LocalizationMemory

/-- A call of an update. -/
structure UpdateCall where
  access : Access
  modName : String
  remoteId : Option String := none
  files : List SourceFile
  language : String
  translator : Translator

/-- What is called. -/
def UpdateCall.action (u : UpdateCall) : Action UpdateOutcome :=
  .update u.modName u.remoteId u.files u.language u.translator

/-- The archive that calls leave one after the other, whether they succeed or fail, if there was
nothing in it before. The last one stands first. -/
def Archive.afterUpdates : List UpdateCall → Archive
  | [] => .fresh
  | u :: earlier => (u.action u.access (afterUpdates earlier)).archive

/-- If a translator answers requests at all, it answers every text of theirs, in words of the
language. Answers beyond the texts are ignored, so they may be anything. -/
def Translator.AnswersIn (translator : Translator) (language : String) (words : String → Prop) :
    Prop :=
  ∀ requests results, (requests.map (·.filename)).Nodup →
    translator language requests = .answers results → ∀ r ∈ requests,
      r.texts.length ≤ (FileResults.answers results r.filename).length ∧
        ∀ text ∈ (FileResults.answers results r.filename).take r.texts.length, words text

variable {access : Access} {a b : Archive} {modName language : String} {files : List SourceFile}
  {translator : Translator} {results : FileResults}

namespace Archive

/-- The newest version of a mod has the text for a key of a file. -/
def HasText (a : Archive) (modName file key text : String) : Prop :=
  ∃ v, a.latestVersionNamed? modName = some v ∧
    ∃ e ∈ a.entries.rows, e.versionId = v.id ∧ e.file = some file ∧ e.key = key ∧ e.text = text

/-- Some version of a mod has a rendering of a key of a file into a language. -/
def HasRendering (a : Archive) (modName file language key : String) : Prop :=
  ∃ m t, a.mod? modName = some m ∧ a.Renders m.id file language key t

end Archive

/-! ### What a merge leaves without a rendering -/

/-- If there are answers for all dirty entries, each of them takes one, and the others keep what
they had. -/
theorem exists_of_mem_fill {entries : List PlannedEntry} {answers : List String}
    (enough : (entries.filter (·.status.isDirty)).length ≤ answers.length) {m : MergedEntry}
    (hm : m ∈ fill entries answers) :
    ∃ e ∈ entries, e.status.isDirty = true ∧
        (∃ text ∈ answers.take (entries.filter (·.status.isDirty)).length,
          m = e.merged (some text)) ∨
      e.status.isDirty = false ∧ m = e.merged e.rendering := by
  induction entries generalizing answers with
  | nil => cases hm
  | cons e r ih =>
    rw [fill] at hm
    cases dirty : e.status.isDirty with
    | true =>
      rw [List.filter_cons_of_pos (by simp [dirty]), List.length_cons] at enough ⊢
      rw [dirty, if_pos rfl] at hm
      cases answers with
      | nil => exact absurd enough (Nat.not_succ_le_zero _)
      | cons first others =>
        rcases List.mem_cons.mp hm with rfl | hm
        · exact ⟨e, List.mem_cons_self, .inl ⟨dirty, first, by simp, rfl⟩⟩
        · obtain ⟨e', he', ⟨dirty', text, mem, rfl⟩ | kept⟩ :=
            ih (Nat.le_of_succ_le_succ enough) hm
          · exact ⟨e', List.mem_cons_of_mem _ he',
              .inl ⟨dirty', text, List.mem_cons_of_mem _ mem, rfl⟩⟩
          · exact ⟨e', List.mem_cons_of_mem _ he', .inr kept⟩
    | false =>
      rw [List.filter_cons_of_neg (by simp [dirty])] at enough ⊢
      rw [dirty, if_neg Bool.false_ne_true] at hm
      rcases List.mem_cons.mp hm with rfl | hm
      · exact ⟨e, List.mem_cons_self, .inr ⟨dirty, rfl⟩⟩
      · obtain ⟨e', he', cases'⟩ := ih enough hm
        exact ⟨e', List.mem_cons_of_mem _ he', cases'⟩

/-- Who answers every text has an answer for every dirty entry of a plan. -/
theorem Translator.AnswersIn.dirtyTexts {words : String → Prop}
    (answers : translator.AnswersIn language words) (proper : ProperFiles files)
    (answered : (a.planOf modName language files).Answered translator results)
    {file : FilePlan} (hfile : file ∈ (a.planOf modName language files).files) :
    file.dirtyTexts.length ≤ (FileResults.answers results file.filename).length ∧
      ∀ text ∈ (FileResults.answers results file.filename).take file.dirtyTexts.length,
        words text := by
  by_cases empty : file.dirtyTexts = []
  · simp [empty]
  · have asked : ⟨file.filename, file.dirtyTexts⟩ ∈
        (a.planOf modName language files).requests :=
      List.mem_map.mpr ⟨file, List.mem_filter.mpr ⟨hfile, by simpa using empty⟩, rfl⟩
    rw [Plan.Answered] at answered
    split at answered
    · next upToDate =>
      rw [requests_of_isUpToDate upToDate] at asked
      cases asked
    · have planned : ((a.planOf modName language files).files.map (·.filename)).Nodup := by
        rw [Archive.planOf, List.map_map]
        exact proper.names
      exact answers _ results (nodup_filename_requests planned) answered _ asked

/-- A translator that renders every text by `f` answers every text with what `f` makes of one. -/
theorem answersIn_rendering (f : String → String) (language : String) :
    (Translator.rendering f).AnswersIn language fun text => ∃ source, text = f source := by
  intro requests results names answered r hr
  cases answered
  have names : ((requests.map fun r => (r.filename, r.texts.map f)).map (·.1)).Nodup := by
    rw [List.map_map]
    exact names
  have answer := Dict.get?_ofList_of_mem names (List.mem_map_of_mem hr)
  rw [FileResults.answers, answer]
  constructor
  · simp
  · intro text mem
    obtain ⟨source, -, rfl⟩ := List.mem_map.mp (List.mem_of_mem_take mem)
    exact ⟨source, rfl⟩

namespace Archive

/-- What an archive holds of a file of the newest version of a mod has a key with a text exactly
if the version has. -/
theorem lastWithKey?_archivedEntries_iff (ha : a.Consistent) (proper : ProperFiles files)
    {f : SourceFile} (hf : f ∈ files) {key : String} {past : ArchivedEntry} :
    lastWithKey? (a.archivedEntries modName f.filename language) key = some past ↔
      ∃ v, a.latestVersionNamed? modName = some v ∧ ∃ e ∈ a.entries.rows,
        e.versionId = v.id ∧ e.file = some f.filename ∧ e.key = key ∧
          past = ⟨e.key, e.text, lastRendering? (a.renderingHistory v.modId f.filename language)
            e.key⟩ := by
  cases latest : a.latestVersionNamed? modName with
  | none => simp [archivedEntries, latest, lastWithKey?]
  | some v =>
    rw [archivedEntries_of_latest latest, proper.baseName_filename hf]
    have distinct : ((a.entriesWithHistory v f.filename language).map (·.key)).Nodup := by
      rw [entriesWithHistory, List.map_map]
      exact ha.nodup_key_entriesOfFile v.id f.filename
    constructor
    · intro found
      obtain ⟨mem, own⟩ := mem_of_lastWithKey? found
      obtain ⟨e, he, rfl⟩ := List.mem_map.mp mem
      obtain ⟨he, version, file⟩ := mem_entriesOfFile_iff.mp he
      exact ⟨v, rfl, e, he, version, file, own, rfl⟩
    · rintro ⟨w, same, e, he, version, file, rfl, rfl⟩
      cases same
      exact lastWithKey?_of_mem distinct
        (List.mem_map.mpr ⟨e, mem_entriesOfFile_iff.mpr ⟨he, version, file⟩, rfl⟩)

/-- An entry is clean and without a rendering exactly if the newest version of the mod has its
text, and no version has a rendering of its key. -/
theorem classifyEntry_bare_iff (ha : a.Consistent) (proper : ProperFiles files) {f : SourceFile}
    (hf : f ∈ files) {info : KeyInfo} {source : String} :
    (classifyEntry (a.archivedEntries modName f.filename language) info source).status.isDirty =
          false ∧
        (classifyEntry (a.archivedEntries modName f.filename language) info source).rendering =
          none ↔
      a.HasText modName f.filename (Key.normalize info.keyPart) source ∧
        ¬ a.HasRendering modName f.filename language (Key.normalize info.keyPart) := by
  rw [classifyEntry_clean_iff]
  constructor
  · rintro ⟨past, found, rfl, bare⟩
    obtain ⟨v, latest, e, he, version, file, key, rfl⟩ :=
      (lastWithKey?_archivedEntries_iff ha proper hf).mp found
    obtain ⟨m, hm, id, -⟩ := (latestVersionNamed?_eq_some_iff ha).mp latest
    refine ⟨⟨v, latest, e, he, version, file, key, rfl⟩, ?_⟩
    rintro ⟨m', t, hm', ht⟩
    obtain rfl : m' = m := Option.some.inj (hm'.symm.trans hm)
    have none := (lastRendering?_eq_none_iff ha).mp bare t
    rw [← id, key] at none
    exact none ht
  · rintro ⟨⟨v, latest, e, he, version, file, key, text⟩, unrendered⟩
    obtain ⟨m, hm, id, -⟩ := (latestVersionNamed?_eq_some_iff ha).mp latest
    refine ⟨_, (lastWithKey?_archivedEntries_iff ha proper hf).mpr
      ⟨v, latest, e, he, version, file, key, rfl⟩, text, ?_⟩
    refine (lastRendering?_eq_none_iff ha).mpr fun t ht => unrendered ⟨m, t, hm, ?_⟩
    rw [id, ← key]
    exact ht

/-- A merged entry is one that was planned: a dirty one with an answer in words of the language, or
a clean one with what it had. -/
theorem exists_of_mem_mergedFile {words : String → Prop}
    (answers : translator.AnswersIn language words) (proper : ProperFiles files)
    (answered : (a.planOf modName language files).Answered translator results) {f : SourceFile}
    (hf : f ∈ files) {e : MergedEntry}
    (he : e ∈ (a.mergedFile modName language results f).entries) :
    ∃ info, Key.normalize info.keyPart = e.key ∧
      let planned := classifyEntry (a.archivedEntries modName f.filename language) info e.source
      (planned.status.isDirty = true ∧ ∃ text, words text ∧ e.rendering = some text) ∨
        planned.status.isDirty = false ∧ e.rendering = planned.rendering := by
  let plan := classify f (a.archivedEntries modName f.filename language)
  have hplan : plan ∈ (a.planOf modName language files).files :=
    List.mem_map.mpr ⟨f, hf, rfl⟩
  obtain ⟨enough, spoken⟩ := answers.dirtyTexts proper answered hplan
  rw [FilePlan.dirtyTexts, List.length_map] at enough spoken
  obtain ⟨p, hp, cases'⟩ := exists_of_mem_fill enough he
  obtain ⟨⟨info, source⟩, -, rfl⟩ := List.mem_map.mp hp
  obtain ⟨dirty, text, mem, rfl⟩ | ⟨clean, rfl⟩ := cases'
  · refine ⟨info, (key_classifyEntry _ _ _).symm, .inl ⟨?_, text, spoken text mem, rfl⟩⟩
    simpa [PlannedEntry.merged] using dirty
  · refine ⟨info, (key_classifyEntry _ _ _).symm, .inr ⟨?_, ?_⟩⟩
    · simpa [PlannedEntry.merged] using clean
    · simp [PlannedEntry.merged]

/-- If every text that is asked is answered, an entry is left without a rendering exactly if the
newest version of the mod has its text, and no version has a rendering of its key. -/
theorem rendering_eq_none_iff (ha : a.Consistent) {words : String → Prop}
    (answers : translator.AnswersIn language words) (proper : ProperFiles files)
    (answered : (a.planOf modName language files).Answered translator results) {f : SourceFile}
    (hf : f ∈ files) {e : MergedEntry}
    (he : e ∈ (a.mergedFile modName language results f).entries) :
    e.rendering = none ↔ a.HasText modName f.filename e.key e.source ∧
      ¬ a.HasRendering modName f.filename language e.key := by
  obtain ⟨info, key, cases'⟩ := exists_of_mem_mergedFile answers proper answered hf he
  rw [← key, ← classifyEntry_bare_iff ha proper hf]
  obtain ⟨dirty, text, -, rendered⟩ | ⟨clean, kept⟩ := cases'
  · simp [dirty, rendered]
  · simp [clean, kept]

end Archive

namespace Archive.AddedVersion

variable {c d : Archive} {modId versionId : RowId} {now : Millis}
  (added : c.AddedVersion modId files now versionId d)

include added

/-- What was not there before is of the version. -/
theorem versionId_of_new {e : EntryRow} (new : e ∉ c.entries.rows) (he : e ∈ d.entries.rows) :
    e.versionId = versionId := by
  obtain ⟨rows, news, entries⟩ := added.entries
  rw [entries] at he
  exact news.ofVersion e ((List.mem_append.mp he).resolve_left new)

variable (hc : c.Consistent) (hd : d.Consistent) (proper : ProperFiles files)
  (results : FileResults)

include hc hd proper

/-- For every merged entry the version has an entry, to which its output text is bound. -/
theorem exists_entry {f : SourceFile} (hf : f ∈ files) {e : MergedEntry}
    (he : e ∈ (a.mergedFile modName language results f).entries) :
    ∃ row ∈ d.entries.rows, row.versionId = versionId ∧ row.file = some f.filename ∧
      row.key = e.key ∧ row.text = e.source ∧
      boundText? (d.batch versionId (a.outputs modName language results) files) row.id =
        some e.outputText := by
  have hp : ((⟨e.key, e.lineNum⟩ : KeyInfo), e.outputText) ∈
      f.keys.zip (a.outputs modName language results f) := by
    rw [proper.zip_outputs results hf]
    exact List.mem_map_of_mem he
  have lengths : ∀ f ∈ files, f.keys.length = (a.outputs modName language results f).length :=
    fun f hf => proper.length_outputs results hf
  have holds := added.holds hc
  obtain ⟨row, inFile, key, version, bound⟩ :=
    holds.exists_bound hd proper lengths added.mem_versions rfl hf hp
  rw [proper.normalize_key_mergedFile results hf he] at key
  -- The version holds the line of the entry, and there is one entry of its key.
  have line : (⟨f.filename, e.key, e.source⟩ : SourceLine) ∈ sourceLines files := by
    have lines : f.lines = (a.mergedFile modName language results f).entries.map
        fun e => (⟨f.filename, e.key, e.source⟩ : SourceLine) :=
      proper.lines_eq_map_mergedFile results hf
    refine mem_sourceLines_iff.mpr ⟨f, hf, ?_⟩
    rw [lines]
    exact List.mem_map_of_mem he
  obtain ⟨row', hrow', version', content⟩ := holds _ line
  obtain ⟨file', key', text'⟩ := EntryRow.content_eq_iff.mp content
  obtain rfl : row' = row := hd.entry_unique hrow' inFile.mem (version'.trans version.symm)
    (file'.trans inFile.file.symm) (key'.trans key.symm)
  exact ⟨row', hrow', version, file', key, text', bound⟩

/-- To every entry of the version the output text of a merged entry is bound. -/
theorem exists_written {row : EntryRow} (hrow : row ∈ d.entries.rows)
    (version : row.versionId = versionId) :
    ∃ f ∈ files, ∃ e ∈ (a.mergedFile modName language results f).entries,
      boundText? (d.batch versionId (a.outputs modName language results) files) row.id =
        some e.outputText := by
  obtain ⟨line, hline, content⟩ := added.exists_line hc hrow version
  obtain ⟨f, hf, hline⟩ := mem_sourceLines_iff.mp hline
  have lines : f.lines = (a.mergedFile modName language results f).entries.map
      fun e => (⟨f.filename, e.key, e.source⟩ : SourceLine) :=
    proper.lines_eq_map_mergedFile results hf
  rw [lines] at hline
  obtain ⟨e, he, rfl⟩ := List.mem_map.mp hline
  obtain ⟨file, key, -⟩ := EntryRow.content_eq_iff.mp content
  obtain ⟨row', hrow', version', file', key', -, bound⟩ :=
    added.exists_entry hc hd proper results hf he
  obtain rfl : row' = row := hd.entry_unique hrow' hrow (version'.trans version.symm)
    (file'.trans file.symm) (key'.trans key.symm)
  exact ⟨f, hf, e, he, bound⟩

end Archive.AddedVersion

/-! ### What an update archives -/

section Archived

variable (proper : ProperFiles files) (ha : a.Consistent) {remoteId : Option String}
  {outcome : UpdateOutcome}
  (ends : (Action.update modName remoteId files language translator).Ends access a outcome b)

include proper ha ends

/-- An update makes the mod, stores the version, and then stores the output texts as one batch. -/
theorem ProperFiles.exists_stages :
    ∃ results m c s d,
      c = { a with mods := c.mods, aliases := c.aliases } ∧
      (c.mod? modName = some m ∧ (Action.ensureNamedMod modName remoteId).Ends access a m.id c) ∧
      d = { c with mods := d.mods, versions := d.versions, entries := d.entries } ∧
      (Action.snapshotChecked m.id files).Ends access c s d ∧
      Archive.putRenderings language access.now
        (d.batch s.versionId (a.outputs modName language results) files) d = .ok b ∧
      outcome.files = files.map (a.mergedFile modName language results) ∧
      outcome.versionId = s.versionId := by
  obtain ⟨current, results, -, modId, c, s, d, report, first, second, third, rfl⟩ :=
    (proper.ends_update_iff ha).mp ends
  obtain ⟨⟨m, found, rfl⟩, framec⟩ := Action.ensureNamedMod_frame first
  have framed := Action.snapshotChecked_frame second
  have currentd : d.layout = .current := by
    rw [framed, framec]
    exact current
  exact ⟨results, m, c, s, d, framec, ⟨found, first⟩, framed, second,
    Action.putRenderings_of_archiveAligned currentd third, rfl, rfl⟩

/-- If the content of the files is new, every merged entry is archived in the version with its
output text. -/
theorem ProperFiles.exists_archived (new : a.versionByHash? (snapshotHash files) = none)
    {file : MergedFile} (hfile : file ∈ outcome.files) {e : MergedEntry} (he : e ∈ file.entries) :
    ∃ row ∈ b.entries.rows, row.versionId = outcome.versionId ∧ row.file = some file.filename ∧
      row.key = e.key ∧ row.text = e.source ∧ ∃ t ∈ b.renderings.rows, t.entryId = row.id ∧
        t.language = language ∧ t.text = e.outputText := by
  obtain ⟨results, m, c, s, d, framec, ⟨-, first⟩, -, second, stored, fileList, id⟩ :=
    proper.exists_stages ha ends
  rw [fileList] at hfile
  obtain ⟨f, hf, rfl⟩ := List.mem_map.mp hfile
  have hc := ha.ensureNamedMod first
  obtain ⟨-, ⟨w, known, -, -⟩ | ⟨-, -, -, hd⟩⟩ := Action.ends_snapshotChecked_iff.mp second
  · rw [framec] at known
    cases new.symm.trans known
  · have added := (Archive.addedVersion_of_addVersion hc proper hd).1
    obtain ⟨row, hrow, version, name, key, text, bound⟩ :=
      added.exists_entry hc (hc.addVersion hd) proper results hf he
    obtain ⟨t, ht, new, entry, written⟩ := Archive.exists_storedBy stored bound
    refine ⟨row, ?_, version.trans id.symm, name, key, text, t, ht, entry, new.into, written⟩
    rw [Archive.putRenderings_frame stored]
    exact hrow

/-- A new entry is of a version of the mod, and has a rendering into the language. -/
theorem ProperFiles.exists_rendering_of_new {e : EntryRow} (he : e ∈ b.entries.rows)
    (new : e ∉ a.entries.rows) :
    ∃ v ∈ b.versions.rows, v.id = e.versionId ∧
      (∃ m ∈ b.mods.rows, m.id = v.modId ∧ m.name = modName) ∧
      ∃ t ∈ b.renderings.rows, t.entryId = e.id ∧ t.language = language := by
  obtain ⟨results, m, c, s, d, framec, ⟨found, first⟩, -, second, stored, -, -⟩ :=
    proper.exists_stages ha ends
  have hc := ha.ensureNamedMod first
  have frameb := Archive.putRenderings_frame stored
  rw [frameb] at he
  obtain ⟨-, ⟨w, -, -, rfl⟩ | ⟨-, -, -, hd⟩⟩ := Action.ends_snapshotChecked_iff.mp second
  · rw [framec] at he
    exact absurd he new
  · have added := (Archive.addedVersion_of_addVersion hc proper hd).1
    have ofVersion := added.versionId_of_new (by rw [framec]; exact new) he
    have stands : (⟨s.versionId, m.id, snapshotHash files, access.now⟩ : VersionRow) ∈
        b.versions.rows := by
      rw [frameb]
      exact added.mem_versions
    refine ⟨_, stands, ofVersion.symm, ?_, ?_⟩
    · have later : c.Grows b :=
        (Archive.Grows.addVersion hc hd).trans (Archive.Grows.putRenderings stored)
      have kept : (m.id, m.name) ∈ b.mods.rows.map fun m => (m.id, m.name) :=
        later.mods.subset (List.mem_map_of_mem (List.mem_of_find?_eq_some found))
      obtain ⟨m', hm', same⟩ := List.mem_map.mp kept
      obtain ⟨id, name⟩ := Prod.mk.inj same
      exact ⟨m', hm', id, name.trans (by simpa using List.find?_some found)⟩
    · obtain ⟨f, hf, e', he', bound⟩ :=
        added.exists_written hc (hc.addVersion hd) proper results he ofVersion
      exact Archive.exists_mem_putRenderings stored
        fun none => Option.some_ne_none _ (bound.symm.trans none)

/-- A rendering is of before, or is the output text of a merged entry. -/
theorem ProperFiles.mem_renderings_cases {t : RenderingRow} (ht : t ∈ b.renderings.rows) :
    t ∈ a.renderings.rows ∨ t.language = language ∧
      ∃ file ∈ outcome.files, ∃ e ∈ file.entries, e.outputText = t.text := by
  obtain ⟨results, m, c, s, d, framec, -, framed, -, stored, fileList, -⟩ :=
    proper.exists_stages ha ends
  rcases Archive.mem_putRenderings_cases stored ht with ⟨before, -⟩ | new
  · rw [framed, framec] at before
    exact .inl before
  · obtain ⟨f, hf, p, hp, text, -⟩ :=
      (Archive.mem_rows_bindResults_iff proper).mp (mem_of_boundText?_eq_some new.text)
    rw [proper.zip_outputs results hf] at hp
    obtain ⟨e, he, rfl⟩ := List.mem_map.mp hp
    rw [fileList]
    exact .inr ⟨new.into, _, List.mem_map_of_mem hf, e, he, text⟩

end Archived

/-! ### Updates one after the other -/

/-- The archive is consistent and has tables, and no rule keeps it from being written. -/
structure Archive.Ready (a : Archive) : Prop where
  consistent : a.Consistent
  current : a.layout = .current
  rules : a.rules = []

namespace Archive.Ready

theorem fresh : Archive.fresh.Ready where
  consistent := .of_layout (.inr rfl)
  current := rfl
  rules := rfl

theorem update (ready : a.Ready) (proper : ProperFiles files) {remoteId : Option String}
    {outcome : UpdateOutcome}
    (ends : (Action.update modName remoteId files language translator).Ends access a outcome b) :
    b.Ready := by
  obtain ⟨current, rules⟩ := proper.update_frame ready.consistent ends
  exact ⟨ready.consistent.update ends, current, rules.trans ready.rules⟩

end Archive.Ready

/-- A call succeeds, or leaves all as it is. -/
theorem UpdateCall.archive_cases (u : UpdateCall) (ready : a.Ready) :
    (u.action u.access a).archive = a ∨
      ∃ outcome, u.action.Ends u.access a outcome (u.action u.access a).archive := by
  cases result : (u.action u.access a).result with
  | ok outcome => exact .inr ⟨outcome, result, rfl⟩
  | error failure =>
    exact .inl (Action.archive_of_fails_update ready.consistent ready.rules ⟨result, rfl⟩)

/-- What calls with proper files leave can be written again. -/
theorem Archive.ready_afterUpdates {calls : List UpdateCall}
    (proper : ∀ u ∈ calls, ProperFiles u.files) : (afterUpdates calls).Ready := by
  induction calls with
  | nil => exact .fresh
  | cons u earlier ih =>
    obtain ⟨own, others⟩ := List.forall_mem_cons.mp proper
    rw [afterUpdates]
    obtain same | ⟨outcome, ends⟩ := u.archive_cases (ih others)
    · rw [same]
      exact ih others
    · exact (ih others).update own ends

/-! ### Mods with a language of their own -/

/-- Every entry of every version has a rendering into the language that belongs to its mod, and all
renderings are in words of their languages. -/
structure Archive.Voiced (a : Archive) (voice : String → String)
    (words : String → String → Prop) : Prop extends a.Ready where
  voiced : ∀ v ∈ a.versions.rows, ∀ m ∈ a.mods.rows, m.id = v.modId →
    ∀ e ∈ a.entries.rows, e.versionId = v.id →
      ∃ t ∈ a.renderings.rows, t.entryId = e.id ∧ t.language = voice m.name
  spoken : ∀ t ∈ a.renderings.rows, words t.language t.text

namespace Archive.Voiced

variable {voice : String → String} {words : String → String → Prop}

theorem fresh : Archive.fresh.Voiced voice words where
  toReady := .fresh
  voiced := by simp [Archive.fresh]
  spoken := by simp [Archive.fresh]

variable (voiced : a.Voiced voice words)

include voiced

/-- A key of the newest version of a mod has a rendering. -/
theorem hasRendering {file key text : String} (has : a.HasText modName file key text) :
    a.HasRendering modName file (voice modName) key := by
  obtain ⟨v, latest, e, he, version, hfile, hkey, -⟩ := has
  obtain ⟨m, hm, id, newest⟩ := (latestVersionNamed?_eq_some_iff voiced.consistent).mp latest
  have mem : m ∈ a.mods.rows := List.mem_of_find?_eq_some hm
  have named : m.name = modName := by simpa using List.find?_some hm
  obtain ⟨t, ht, entry, into⟩ := voiced.voiced v newest.mem m mem id e he version
  exact ⟨m, t, hm, ht, into.trans (congrArg voice named), e,
    ⟨he, ⟨v, newest.mem, version.symm, id.symm⟩, hfile⟩, hkey, entry.symm⟩

/-- An update of a mod into its language renders every entry in words of the language. -/
theorem exists_rendering (own : language = voice modName)
    (answers : translator.AnswersIn language (words language)) (proper : ProperFiles files)
    (answered : (a.planOf modName language files).Answered translator results)
    {f : SourceFile} (hf : f ∈ files) {e : MergedEntry}
    (he : e ∈ (a.mergedFile modName language results f).entries) :
    ∃ text, e.rendering = some text ∧ words language text := by
  subst own
  have ha := voiced.consistent
  obtain ⟨info, key, ⟨-, text, spoken, rendered⟩ | ⟨clean, kept⟩⟩ :=
    exists_of_mem_mergedFile answers proper answered hf he
  · exact ⟨text, rendered, spoken⟩
  · -- What was kept is the text of a rendering of before.
    cases rendered : e.rendering with
    | none =>
      obtain ⟨has, unrendered⟩ :=
        (rendering_eq_none_iff ha answers proper answered hf he).mp rendered
      exact absurd (voiced.hasRendering has) unrendered
    | some text =>
      refine ⟨text, rfl, ?_⟩
      obtain ⟨past, found, -, own⟩ := classifyEntry_clean_iff.mp ⟨clean, rfl⟩
      obtain ⟨v, -, e', -, -, -, -, rfl⟩ := (lastWithKey?_archivedEntries_iff ha proper hf).mp found
      have last := own.trans (kept.symm.trans rendered)
      obtain ⟨t, ht, -, rfl⟩ := (lastRendering?_eq_some_iff ha).mp last
      rw [← ht.into]
      exact voiced.spoken t ht.mem

/-- An update of a mod into its language renders every entry that it gives. -/
theorem exists_rendering_of_ends (own : language = voice modName) {remoteId : Option String}
    {outcome : UpdateOutcome} (answers : translator.AnswersIn language (words language))
    (proper : ProperFiles files)
    (ends : (Action.update modName remoteId files language translator).Ends access a outcome b)
    {file : MergedFile} (hfile : file ∈ outcome.files) {e : MergedEntry} (he : e ∈ file.entries) :
    ∃ text, e.rendering = some text ∧ words language text := by
  obtain ⟨-, results, answered, modId, c, s, d, report, -, -, -, rfl⟩ :=
    (proper.ends_update_iff voiced.consistent).mp ends
  obtain ⟨f, hf, rfl⟩ := List.mem_map.mp hfile
  exact voiced.exists_rendering own answers proper answered hf he

/-- An entry of before has a rendering into the language of its mod in an archive that has grown. -/
theorem exists_rendering_of_grows (grows : a.Grows b) (hb : b.Consistent) {v : VersionRow}
    (hv : v ∈ b.versions.rows) {m : ModRow} (hm : m ∈ b.mods.rows) (id : m.id = v.modId)
    {e : EntryRow} (old : e ∈ a.entries.rows) (version : e.versionId = v.id) :
    ∃ t ∈ b.renderings.rows, t.entryId = e.id ∧ t.language = voice m.name := by
  have ha := voiced.consistent
  obtain ⟨v', hv', id'⟩ := List.mem_map.mp (ha.versionOfEntry e old)
  obtain rfl : v' = v :=
    hb.versions.unique.eq_of_key_eq (grows.versions.subset hv') hv (id'.trans version)
  obtain ⟨m', hm', ofMod⟩ := List.mem_map.mp (ha.modOfVersion v' hv')
  have name := grows.name_eq hb hm' hm (id.trans ofMod.symm)
  obtain ⟨t, ht, entry, into⟩ := voiced.voiced v' hv' m' hm' ofMod e old version
  obtain ⟨u, hu, entry', into'⟩ := grows.exists_rendering ht
  exact ⟨u, hu, entry'.trans entry, by rw [into', into, name]⟩

/-- After an update of a mod into its language all is as it was. -/
theorem update (own : language = voice modName) {remoteId : Option String}
    {outcome : UpdateOutcome} (answers : translator.AnswersIn language (words language))
    (proper : ProperFiles files)
    (ends : (Action.update modName remoteId files language translator).Ends access a outcome b) :
    b.Voiced voice words := by
  have ha := voiced.consistent
  have ready := voiced.toReady.update proper ends
  have hb := ready.consistent
  have grows : a.Grows b := by
    have moved := (Continues.lasting access.now).writes.moves_update modName remoteId files
      language translator a ha
    rw [ends.2] at moved
    exact moved.2
  refine ⟨ready, ?_, ?_⟩
  · intro v hv m hm id e he version
    by_cases old : e ∈ a.entries.rows
    · exact voiced.exists_rendering_of_grows grows hb hv hm id old version
    · obtain ⟨v', hv', id', ⟨m', hm', ofMod, rfl⟩, t, ht, entry, into⟩ :=
        proper.exists_rendering_of_new ha ends he old
      obtain rfl : v' = v := hb.versions.unique.eq_of_key_eq hv' hv (id'.trans version)
      obtain rfl : m' = m := hb.mods.unique.eq_of_key_eq hm' hm (ofMod.trans id.symm)
      exact ⟨t, ht, entry, into.trans own⟩
  · intro t ht
    obtain before | ⟨into, file, hfile, e, he, text⟩ := proper.mem_renderings_cases ha ends ht
    · exact voiced.spoken t before
    · -- What was stored is the output text of an entry, and all of these are renderings.
      obtain ⟨spoken, rendered, inWords⟩ :=
        voiced.exists_rendering_of_ends own answers proper ends hfile he
      rw [MergedEntry.outputText, rendered, Option.getD_some] at text
      rw [into, ← text]
      exact inWords

end Archive.Voiced

/-- If every mod has a language of its own, into which it is always updated, every entry has a
rendering into the language of its mod after any number of calls. -/
theorem Archive.voiced_afterUpdates {voice : String → String} {words : String → String → Prop}
    {calls : List UpdateCall} (proper : ∀ u ∈ calls, ProperFiles u.files)
    (answers : ∀ u ∈ calls, u.translator.AnswersIn u.language (words u.language))
    (own : ∀ u ∈ calls, u.language = voice u.modName) :
    (afterUpdates calls).Voiced voice words := by
  induction calls with
  | nil => exact .fresh
  | cons u earlier ih =>
    have before := ih (fun c hc => proper c (List.mem_cons_of_mem _ hc))
      (fun c hc => answers c (List.mem_cons_of_mem _ hc))
      fun c hc => own c (List.mem_cons_of_mem _ hc)
    rw [afterUpdates]
    obtain same | ⟨outcome, ends⟩ := u.archive_cases before.toReady
    · rw [same]
      exact before
    · exact before.update (own u List.mem_cons_self) (answers u List.mem_cons_self)
        (proper u List.mem_cons_self) ends

/-- After any calls of updates, by translators that answer every text in words of the language, an
update that succeeds leaves an entry without a rendering exactly if the newest version of its mod
had the text for the key, and no version had a rendering of the key into the language. If its files
are new, every entry is archived with its rendering, or with its source text if it has none. And if
every mod has a language of its own, every entry has a rendering, in words of the language. -/
theorem UpdateCall.renderings_of_ends {words : String → String → Prop} {earlier : List UpdateCall}
    {u : UpdateCall} (proper : ∀ c ∈ u :: earlier, ProperFiles c.files)
    (answers : ∀ c ∈ u :: earlier, c.translator.AnswersIn c.language (words c.language))
    {outcome : UpdateOutcome}
    (ends : u.action.Ends u.access (.afterUpdates earlier) outcome b) :
    (∀ file ∈ outcome.files, ∀ e ∈ file.entries, e.rendering = none ↔
      (Archive.afterUpdates earlier).HasText u.modName file.filename e.key e.source ∧
        ¬ (Archive.afterUpdates earlier).HasRendering u.modName file.filename u.language e.key) ∧
    ((Archive.afterUpdates earlier).versionByHash? (snapshotHash u.files) = none →
      ∀ file ∈ outcome.files, ∀ e ∈ file.entries, ∃ row ∈ b.entries.rows,
        row.versionId = outcome.versionId ∧ row.file = some file.filename ∧ row.key = e.key ∧
          row.text = e.source ∧ ∃ t ∈ b.renderings.rows, t.entryId = row.id ∧
            t.language = u.language ∧ t.text = e.rendering.getD e.source) ∧
    ∀ voice : String → String, (∀ c ∈ u :: earlier, c.language = voice c.modName) →
      ∀ file ∈ outcome.files, ∀ e ∈ file.entries,
        ∃ text, e.rendering = some text ∧ words u.language text := by
  obtain ⟨own, others⟩ := List.forall_mem_cons.mp proper
  have answered := answers u List.mem_cons_self
  have ha := (Archive.ready_afterUpdates others).consistent
  refine ⟨?_, fun new file hfile e he => own.exists_archived ha ends new hfile he, ?_⟩
  · intro file hfile e he
    obtain ⟨-, results, planned, modId, c, s, d, report, -, -, -, rfl⟩ :=
      (own.ends_update_iff ha).mp ends
    obtain ⟨f, hf, rfl⟩ := List.mem_map.mp hfile
    exact Archive.rendering_eq_none_iff ha answered own planned hf he
  · intro voice same file hfile e he
    have voiced := Archive.voiced_afterUpdates others
      (fun c hc => answers c (List.mem_cons_of_mem _ hc))
      fun c hc => same c (List.mem_cons_of_mem _ hc)
    exact voiced.exists_rendering_of_ends (same u List.mem_cons_self) answered own ends hfile he

/-- A mod that is updated twice into one language has every entry rendered. -/
theorem UpdateCall.renderings_of_ends_of_changed :
    ∃ outcome b,
      (UpdateCall.mk { now := 2 } "Alpha" none [.single "a.yml" "k" "Y"] "ko"
        (.rendering ("ko:" ++ ·))).action.Ends { now := 2 }
          (.afterUpdates [⟨{ now := 1 }, "Alpha", none, [.single "a.yml" "k" "X"], "ko",
            .rendering ("ko:" ++ ·)⟩]) outcome b ∧
      ∀ file ∈ outcome.files, ∀ e ∈ file.entries,
        ∃ text, e.rendering = some text ∧ ∃ source, text = "ko:" ++ source := by
  let first : UpdateCall :=
    ⟨{ now := 1 }, "Alpha", none, [.single "a.yml" "k" "X"], "ko", .rendering ("ko:" ++ ·)⟩
  let second : UpdateCall :=
    ⟨{ now := 2 }, "Alpha", none, [.single "a.yml" "k" "Y"], "ko", .rendering ("ko:" ++ ·)⟩
  have succeeds : (second.action { now := 2 } (.afterUpdates [first])).result.isOk = true := by
    decide +kernel
  obtain ⟨outcome, ends⟩ := Action.exists_ends_of_isOk succeeds
  have proper : ∀ c ∈ [second, first], ProperFiles c.files := by decide +kernel
  let words : String → String → Prop := fun _ text => ∃ source, text = "ko:" ++ source
  have answers : ∀ c ∈ [second, first], c.translator.AnswersIn c.language (words c.language) := by
    simpa [second, first] using answersIn_rendering ("ko:" ++ ·) "ko"
  obtain ⟨-, -, rendered⟩ := UpdateCall.renderings_of_ends proper answers ends
  exact ⟨outcome, _, ends, rendered (fun _ => "ko") (by simp [second, first])⟩

/-- A mod that was updated into one language and is updated into another, with the same files, gets
no rendering, though the translator would have answered: its source text is written and archived in
place of one. -/
theorem UpdateCall.left_without_rendering :
    ProperFiles [.single "a.yml" "k" "X"] ∧
    (∃ words, (Translator.rendering ("ja:" ++ ·)).AnswersIn "ja" words) ∧
    ∃ outcome b,
      (UpdateCall.mk { now := 2 } "Alpha" none [.single "a.yml" "k" "X"] "ja"
        (.rendering ("ja:" ++ ·))).action.Ends { now := 2 }
          (.afterUpdates [⟨{ now := 1 }, "Alpha", none, [.single "a.yml" "k" "X"], "ko",
            .rendering ("ko:" ++ ·)⟩]) outcome b ∧
      outcome.files = [⟨"a.yml", [⟨"k", "X", none, none⟩]⟩] ∧
      outcome.files.map (·.outputTexts) = [["X"]] ∧
      ∃ t ∈ b.renderings.rows, t.language = "ja" ∧ t.text = "X" := by
  let first : UpdateCall :=
    ⟨{ now := 1 }, "Alpha", none, [.single "a.yml" "k" "X"], "ko", .rendering ("ko:" ++ ·)⟩
  let second : UpdateCall :=
    ⟨{ now := 2 }, "Alpha", none, [.single "a.yml" "k" "X"], "ja", .rendering ("ja:" ++ ·)⟩
  obtain ⟨succeeds, files, archived⟩ :
      (second.action { now := 2 } (.afterUpdates [first])).result.isOk = true ∧
        (∀ outcome ∈ (second.action { now := 2 } (.afterUpdates [first])).result.toOption,
          outcome.files = [⟨"a.yml", [⟨"k", "X", none, none⟩]⟩]) ∧
        ∃ t ∈ (second.action { now := 2 } (.afterUpdates [first])).archive.renderings.rows,
          t.language = "ja" ∧ t.text = "X" := by
    decide +kernel
  obtain ⟨outcome, ends⟩ := Action.exists_ends_of_isOk succeeds
  have files := files outcome (by rw [ends.1]; rfl)
  exact ⟨by decide +kernel, ⟨_, answersIn_rendering ("ja:" ++ ·) "ja"⟩, outcome, _, ends, files,
    by rw [files]; rfl, archived⟩

end LocalizationMemory
