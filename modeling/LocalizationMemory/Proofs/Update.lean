import LocalizationMemory.Proofs.Archive.Archiving
import LocalizationMemory.Proofs.Archive.Snapshot
import LocalizationMemory.Proofs.Comparison
import LocalizationMemory.Update

/-!
# How an update ends

An update that succeeds has planned by what the archive held, had its plan answered, and
archived the merged files in three steps: its mod, its version, its renderings. For
proper files, what is archived are the files as they were given.

## Main definitions

* `Translator.rendering` — the translator that renders every text by a function
* `Archive.planOf` — the plan that files come to
* `Plan.Answered` — the answers that a translator gives to a plan
* `Archive.mergedFile` — a file merged with answers
* `Archive.outputs` — the texts that are written for a file

## Main results

* `Action.ends_update_iff`, `ProperFiles.ends_update_iff` — how an update ends
-/

namespace LocalizationMemory

variable {access : Access} {a b : Archive} {modName language : String}
  {files : List SourceFile}

/-- The translator that renders every text by `f`. -/
def Translator.rendering (f : String → String) : Translator := fun _ requests =>
  .answers (.ofList (requests.map fun r => (r.filename, r.texts.map f)))

/-- The plan that files come to, by what the archive holds of them. -/
def Archive.planOf (a : Archive) (modName language : String) (files : List SourceFile) : Plan :=
  ⟨modName, language,
    files.map fun f => classify f (a.archivedEntries modName f.filename language)⟩

/-- The answers that a translator gives to a plan, which are none if nothing is dirty. -/
def Plan.Answered (plan : Plan) (translator : Translator) (results : FileResults) : Prop :=
  if plan.isUpToDate then results = ∅
  else translator plan.language plan.requests = .answers results

/-- A file merged with the answers to the plan. -/
def Archive.mergedFile (a : Archive) (modName language : String) (results : FileResults)
    (f : SourceFile) : MergedFile :=
  (classify f (a.archivedEntries modName f.filename language)).merge results

/-- The texts that are written for a file. -/
def Archive.outputs (a : Archive) (modName language : String) (results : FileResults)
    (f : SourceFile) : List String := (a.mergedFile modName language results f).outputTexts

namespace Action

theorem ends_classifyAll_iff (ha : a.Consistent) {plans : List FilePlan} :
    (classifyAll modName language files).Ends access a plans b ↔
      (files ≠ [] → a.layout = .current) ∧
        plans = (a.planOf modName language files).files ∧ b = a := by
  induction files generalizing plans b with
  | nil => simp [classifyAll, Archive.planOf]
  | cons f r ih =>
    simp only [classifyAll, ends_bind_iff, ends_archivedEntries_iff ha, ends_pure_iff]
    constructor
    · rintro ⟨_, c, ⟨current, rfl, rfl⟩, _, d, rest, rfl, rfl⟩
      obtain ⟨-, rfl, rfl⟩ := ih.mp rest
      exact ⟨fun _ => current, rfl, rfl⟩
    · rintro ⟨current, rfl, rfl⟩
      have current := current (List.cons_ne_nil f r)
      exact ⟨_, b, ⟨current, rfl, rfl⟩, _, b, ih.mpr ⟨fun _ => current, rfl, rfl⟩, rfl, rfl⟩

theorem ends_plan_iff (ha : a.Consistent) {p : Plan} :
    (plan modName files language).Ends access a p b ↔
      (files ≠ [] → a.layout = .current) ∧ p = a.planOf modName language files ∧ b = a := by
  simp only [plan, ends_bind_iff, ends_classifyAll_iff ha, ends_report_iff, ends_pure_iff]
  constructor
  · rintro ⟨_, c, ⟨current, rfl, rfl⟩, _, d, rfl, rfl, rfl⟩
    exact ⟨current, rfl, rfl⟩
  · rintro ⟨current, rfl, rfl⟩
    exact ⟨_, b, ⟨current, rfl, rfl⟩, (), b, rfl, rfl, rfl⟩

theorem ends_translate_iff {p : Plan} {translator : Translator} {results : FileResults} :
    (translate p translator).Ends access a results b ↔
      p.Answered translator results ∧ b = a := by
  unfold translate Plan.Answered
  split
  · exact ends_pure_iff
  · simp only [ends_bind_iff, ends_report_iff]
    cases h : translator p.language p.requests with
    | answers results' => simp [eq_comm (a := results)]
    | failed text => simp
    | crashed => simp

/-- An update plans, has the plan answered, and archives the merged files. -/
theorem ends_update_iff (ha : a.Consistent) {remoteId : Option String} {translator : Translator}
    {outcome : UpdateOutcome} :
    (update modName remoteId files language translator).Ends access a outcome b ↔
      files ≠ [] ∧ a.layout = .current ∧
        ∃ results, (a.planOf modName language files).Answered translator results ∧
          ∃ versionId report,
            (archiveMerged ((a.planOf modName language files).merge results) remoteId).Ends
              access a (versionId, report) b ∧
            outcome = ⟨(a.planOf modName language files).summary, versionId, report,
              ((a.planOf modName language files).merge results).files,
              ((a.planOf modName language files).merge results).missing⟩ := by
  rw [update]
  cases files with
  | nil => simp
  | cons f r =>
    simp only [List.isEmpty_cons, Bool.false_eq_true, if_false, ends_bind_iff, ends_plan_iff ha,
      ends_translate_iff, ends_report_iff, ends_pure_iff]
    constructor
    · rintro ⟨_, c, ⟨current, rfl, rfl⟩, results, d, ⟨answered, rfl⟩, ⟨versionId, report⟩, d', archived,
        _, d'', rfl, rfl, rfl⟩
      exact ⟨List.cons_ne_nil f r, current (List.cons_ne_nil f r), results, answered, versionId,
        report, archived, rfl⟩
    · rintro ⟨-, current, results, answered, versionId, report, archived, rfl⟩
      exact ⟨_, a, ⟨fun _ => current, rfl, rfl⟩, results, a, ⟨answered, rfl⟩, (versionId, report), b,
        archived, (), b, rfl, rfl, rfl⟩

/-- A merged set is archived in three steps. -/
theorem ends_archiveMerged_iff {merged : MergedSet} {remoteId : Option String}
    {versionId : RowId} {report : ArchiveReport} :
    (archiveMerged merged remoteId).Ends access a (versionId, report) b ↔
      ∃ modId c s d, (ensureNamedMod merged.modName remoteId).Ends access a modId c ∧
        (snapshotChecked modId merged.sourceFiles).Ends access c s d ∧
        (archiveAligned s.versionId merged.alignedRenderings merged.sourceFiles
          merged.language).Ends access d report b ∧ versionId = s.versionId := by
  simp only [archiveMerged, ends_bind_iff, ends_pure_iff, Prod.mk.injEq]
  constructor
  · rintro ⟨modId, c, first, s, d, second, r, d', third, ⟨rfl, rfl⟩, rfl⟩
    exact ⟨modId, c, s, d, first, second, third, rfl⟩
  · rintro ⟨modId, c, s, d, first, second, third, rfl⟩
    exact ⟨modId, c, first, s, d, second, report, b, third, ⟨rfl, rfl⟩, rfl⟩

end Action

/-! ### The merged files of proper files -/

theorem files_merge_planOf (results : FileResults) :
    ((a.planOf modName language files).merge results).files =
      files.map (a.mergedFile modName language results) := by
  rw [Archive.planOf, Plan.merge, List.map_map]
  rfl

theorem alignedRenderings_merge_planOf (results : FileResults) :
    ((a.planOf modName language files).merge results).alignedRenderings =
      alignedTexts (a.outputs modName language results) files := by
  rw [MergedSet.alignedRenderings, files_merge_planOf, List.map_map]
  rfl

/-- What is archived are the files in normal form. -/
theorem sourceFiles_merge_planOf (results : FileResults) :
    ((a.planOf modName language files).merge results).sourceFiles = files.map (·.normalized) := by
  rw [MergedSet.sourceFiles, files_merge_planOf, List.map_map]
  exact List.map_congr_left fun f _ => toSourceFile_merge f _ results

/-- The texts of an aligned file are those of its merged entries. -/
theorem texts_mergedFile {f : SourceFile} (aligned : f.keys.length = f.texts.length)
    (results : FileResults) :
    (a.mergedFile modName language results f).entries.map (·.source) = f.texts :=
  (congrArg SourceFile.texts (toSourceFile_merge f _ results)).trans
    (SourceFile.map_snd_pairs aligned)

/-- What is written for an aligned file that is rendered by a function is what the function makes
of its texts. -/
theorem outputs_eq_map {f : SourceFile} (aligned : f.keys.length = f.texts.length)
    {results : FileResults} {g : String → String}
    (renders : ∀ e ∈ (a.mergedFile modName language results f).entries,
      e.rendering = some (g e.source)) :
    a.outputs modName language results f = f.texts.map g := by
  have texts : (a.mergedFile modName language results f).entries.map (·.source) = f.texts :=
    texts_mergedFile aligned results
  rw [Archive.outputs, MergedFile.outputTexts, ← texts, List.map_map]
  apply List.map_congr_left
  intro e he
  simp [MergedEntry.outputText, renders e he]

namespace ProperFiles

variable (proper : ProperFiles files) (results : FileResults)

include proper

/-- What is archived are the files as they were given. -/
theorem sourceFiles_merge_planOf :
    ((a.planOf modName language files).merge results).sourceFiles = files := by
  rw [LocalizationMemory.sourceFiles_merge_planOf]
  exact (List.map_congr_left fun f hf => proper.normalized_eq hf).trans (List.map_id files)

/-- How an update of proper files ends. -/
theorem ends_update_iff (ha : a.Consistent) {remoteId : Option String}
    {translator : Translator} {outcome : UpdateOutcome} :
    (Action.update modName remoteId files language translator).Ends access a outcome b ↔
      a.layout = .current ∧
        ∃ results, (a.planOf modName language files).Answered translator results ∧
          ∃ modId c s d report,
            (Action.ensureNamedMod modName remoteId).Ends access a modId c ∧
            (Action.snapshotChecked modId files).Ends access c s d ∧
            (Action.archiveAligned s.versionId
              (alignedTexts (a.outputs modName language results) files) files language).Ends
                access d report b ∧
            outcome = ⟨(a.planOf modName language files).summary, s.versionId, report,
              files.map (a.mergedFile modName language results),
              ((a.planOf modName language files).merge results).missing⟩ := by
  have archived : ∀ results versionId report,
      (Action.archiveMerged ((a.planOf modName language files).merge results) remoteId).Ends
          access a (versionId, report) b ↔
        ∃ modId c s d, (Action.ensureNamedMod modName remoteId).Ends access a modId c ∧
          (Action.snapshotChecked modId files).Ends access c s d ∧
          (Action.archiveAligned s.versionId
            (alignedTexts (a.outputs modName language results) files) files language).Ends
              access d report b ∧ versionId = s.versionId := by
    intro results versionId report
    rw [Action.ends_archiveMerged_iff, proper.sourceFiles_merge_planOf,
      alignedRenderings_merge_planOf]
    rfl
  simp only [Action.ends_update_iff ha, archived, files_merge_planOf]
  constructor
  · rintro ⟨-, current, results, answered, _, report, ⟨modId, c, s, d, first, second, third, rfl⟩,
      rfl⟩
    exact ⟨current, results, answered, modId, c, s, d, report, first, second, third, rfl⟩
  · rintro ⟨current, results, answered, modId, c, s, d, report, first, second, third, rfl⟩
    exact ⟨proper.nonempty, current, results, answered, s.versionId, report,
      ⟨modId, c, s, d, first, second, third, rfl⟩, rfl⟩

omit proper in
/-- Where the mod and the version of the texts are there, an update only archives. -/
theorem archiveAligned_of_known {remoteId : Option String} {modId : RowId} {c d : Archive}
    {s : Snapshot} {m : ModRow} {w : VersionRow} (mod : a.mod? modName = some m)
    (known : a.versionByHash? (snapshotHash files) = some w)
    (first : (Action.ensureNamedMod modName remoteId).Ends access a modId c)
    (second : (Action.snapshotChecked modId files).Ends access c s d) :
    d = a ∧ s.versionId = w.id := by
  obtain rfl : c = a := by
    obtain ⟨-, -, ⟨m', -, -, rfl⟩ | ⟨absent, -⟩⟩ := Action.ends_ensureNamedMod_iff.mp first
    · rfl
    · rw [mod] at absent
      cases absent
  obtain ⟨-, ⟨w', found, rfl, rfl⟩ | ⟨absent, -⟩⟩ := Action.ends_snapshotChecked_iff.mp second
  · rw [known] at found
    cases found
    exact ⟨rfl, rfl⟩
  · rw [known] at absent
    cases absent

/-- An update that succeeds leaves layout and rules as they are. -/
theorem update_frame (ha : a.Consistent) {remoteId : Option String} {translator : Translator}
    {outcome : UpdateOutcome}
    (ends : (Action.update modName remoteId files language translator).Ends access a outcome b) :
    b.layout = .current ∧ b.rules = a.rules := by
  obtain ⟨current, results, -, modId, c, s, d, report, first, second, third, rfl⟩ :=
    (proper.ends_update_iff ha).mp ends
  have framec := (Action.ensureNamedMod_frame first).2
  have framed := Action.snapshotChecked_frame second
  have currentd : d.layout = .current := by
    rw [framed, framec]
    exact current
  rw [Action.archiveAligned_frame currentd third]
  refine ⟨currentd, ?_⟩
  change d.rules = a.rules
  rw [framed, framec]

/-- After an update the mod is there, and so is a version of the texts of the files, which
is the one that is returned. -/
theorem exists_of_update (ha : a.Consistent) {remoteId : Option String}
    {translator : Translator} {outcome : UpdateOutcome}
    (ends : (Action.update modName remoteId files language translator).Ends access a outcome b) :
    ∃ m w, b.mod? modName = some m ∧ b.versionByHash? (snapshotHash files) = some w ∧
      w.id = outcome.versionId := by
  obtain ⟨current, results, -, modId, c, s, d, report, first, second, third, rfl⟩ :=
    (proper.ends_update_iff ha).mp ends
  have hc := ha.ensureNamedMod first
  obtain ⟨⟨m, hm, rfl⟩, framec⟩ := Action.ensureNamedMod_frame first
  have currentc : c.layout = .current := by
    rw [framec]
    exact current
  obtain ⟨-, ⟨w, known, rfl, rfl⟩ | ⟨new, -, -, hd⟩⟩ := Action.ends_snapshotChecked_iff.mp second
  · rw [Action.archiveAligned_frame currentc third]
    exact ⟨m, w, hm, known, rfl⟩
  · -- The mod was touched when the version was stored, so it is another row of the same id.
    have added := (Archive.addedVersion_of_addVersion hc proper hd).1
    have ids := added.map_id_mod? modName
    rw [hm] at ids
    obtain ⟨m', hm', -⟩ := Option.map_eq_some_iff.mp ids
    rw [Action.archiveAligned_frame (added.layout.trans currentc) third]
    exact ⟨m', _, hm', added.versionByHash? new, rfl⟩

variable {f : SourceFile} (hf : f ∈ files)

include hf

/-- The keys of a file are those of its merged entries. -/
theorem keys_mergedFile :
    (a.mergedFile modName language results f).entries.map
      (fun e => (⟨e.key, e.lineNum⟩ : KeyInfo)) = f.keys :=
  congrArg SourceFile.keys (proper.toSourceFile_merge hf _ results)

/-- The texts of a file are those of its merged entries. -/
theorem texts_mergedFile :
    (a.mergedFile modName language results f).entries.map (·.source) = f.texts :=
  LocalizationMemory.texts_mergedFile (proper.aligned f hf) results

theorem length_outputs : f.keys.length = (a.outputs modName language results f).length := by
  rw [← proper.keys_mergedFile results hf, Archive.outputs, MergedFile.outputTexts,
    List.length_map, List.length_map]

/-- The keys of a file with what is written for them are those of its merged entries. -/
theorem zip_outputs : f.keys.zip (a.outputs modName language results f) =
    (a.mergedFile modName language results f).entries.map
      fun e => (⟨e.key, e.lineNum⟩, e.outputText) := by
  rw [← proper.keys_mergedFile results hf, Archive.outputs, MergedFile.outputTexts, List.zip_map']

/-- The keys of merged entries are in normal form. -/
theorem normalize_key_mergedFile {e : MergedEntry}
    (he : e ∈ (a.mergedFile modName language results f).entries) :
    Key.normalize e.key = e.key := by
  apply proper.normalized f hf ⟨e.key, e.lineNum⟩
  rw [← proper.keys_mergedFile results hf]
  exact List.mem_map_of_mem he

/-- The lines of a file are those of its merged entries. -/
theorem lines_eq_map_mergedFile : f.lines =
    (a.mergedFile modName language results f).entries.map
      fun e => (⟨f.filename, e.key, e.source⟩ : SourceLine) := by
  have pairs : f.pairs = (a.mergedFile modName language results f).entries.map
      fun e => (⟨e.key, e.lineNum⟩, e.source) := by
    rw [SourceFile.pairs, ← proper.keys_mergedFile results hf, ← proper.texts_mergedFile results hf,
      List.zip_map']
  rw [SourceFile.lines, pairs, List.map_map]
  apply List.map_congr_left
  intro e he
  simp [proper.normalize_key_mergedFile results hf he]

end ProperFiles

end LocalizationMemory
