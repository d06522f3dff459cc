import LocalizationMemory.Proofs.Convergence
import LocalizationMemory.Proofs.Runs

/-!
# What a run of updates reuses

A translator that renders by a function of texts is asked for new and for changed texts
only; every other entry keeps what is read back for its key. So long as that is the
rendering of its own text, every update of a run renders by the function.

A step whose files have the texts of a version already stored makes no version of its
own. Its renderings go to the entries of that version, where they are the newest of
their keys, while the files are still compared with the version that was stored last. If
the two give a key different texts, the key of the newest version is read back with the
rendering of the other text from then on, and the next update takes it for its own.
Nothing else goes wrong: a run reuses the right renderings, however it goes on, exactly
if it has no such step.

## Main definitions

* `UpdateOutcome.RendersBy` — every rendering is what a function makes of its source
* `Archive.Faithful` — what is read back for the newest version of a mod is so, too
* `UpdateStep.Rebinds` — a step renders a source text for the key of an entry in the
  version that has the texts of its files
* `UpdateStep.Harmless` — no key of the newest version gets another rendering in this way

## Main results

* `UpdateStep.Taken.rendersBy` — from a faithful archive an update renders by the function
* `UpdateStep.Taken.faithful` — a harmless step leaves a faithful archive
* `UpdateRun.harmless_iff` — harmless runs are those that go on well
* `UpdateRun.exists_not_rendersBy` — going back to a former text and forth again
-/

namespace LocalizationMemory

variable {modName language : String} {f : String → String} {a b : Archive}
  {step : UpdateStep} {steps earlier : List UpdateStep} {v : VersionRow} {files : List SourceFile}

/-- Every rendering in the merged files is what `f` makes of the source text. -/
def UpdateOutcome.RendersBy (outcome : UpdateOutcome) (f : String → String) : Prop :=
  ∀ file ∈ outcome.files, ∀ e ∈ file.entries, e.rendering = some (f e.source)

instance (outcome : UpdateOutcome) (f : String → String) : Decidable (outcome.RendersBy f) :=
  inferInstanceAs (Decidable (∀ file ∈ outcome.files, ∀ e ∈ file.entries,
    e.rendering = some (f e.source)))

/-- What is read back for the keys of the newest version of a mod is what `f` makes of
their texts. -/
def Archive.Faithful (a : Archive) (modName language : String) (f : String → String) : Prop :=
  ∀ v, a.latestVersionNamed? modName = some v →
    ∀ e ∈ a.entries.rows, e.versionId = v.id → ∀ file, e.file = some file →
      lastRendering? (a.renderingHistory v.modId file language) e.key = some (f e.text)

/-- The texts of the step are those of a version already stored, and there the step
renders a source text for the key that an entry has. -/
def UpdateStep.Rebinds (step : UpdateStep) (e : EntryRow) (source : String) : Prop :=
  ∃ w, step.before.versionByHash? (snapshotHash step.files) = some w ∧
    ∃ e' ∈ step.before.entries.rows, e'.versionId = w.id ∧ e'.file = e.file ∧ e'.key = e.key ∧
      boundText? (step.before.batch w.id (·.texts) step.files) e'.id = some source

/-- What the step renders for a key of the newest version is rendered as the text that
the key has there. -/
def UpdateStep.Harmless (step : UpdateStep) (modName : String) (f : String → String) : Prop :=
  ∀ v, step.before.latestVersionNamed? modName = some v →
    ∀ e ∈ step.before.entries.rows, e.versionId = v.id →
      ∀ source, step.Rebinds e source → f source = f e.text

/-! ### Rendering from a faithful archive -/

/-- A clean entry keeps what `f` makes of its text if the archive is faithful. -/
theorem Archive.Faithful.rendering_classifyEntry (faithful : a.Faithful modName language f)
    (proper : ProperFiles files) {g : SourceFile} (hg : g ∈ files) {p : KeyInfo × String}
    (clean : (classifyEntry (a.archivedEntries modName g.filename language) p.1 p.2).status.isDirty =
      false) :
    (classifyEntry (a.archivedEntries modName g.filename language) p.1 p.2).rendering =
      some (f p.2) := by
  obtain ⟨past, found, same, kept⟩ := classifyEntry_clean_iff.mp ⟨clean, rfl⟩
  obtain ⟨mem, -⟩ := mem_of_lastWithKey? found
  cases latest : a.latestVersionNamed? modName with
  | none => simp [archivedEntries, latest] at mem
  | some v =>
    rw [archivedEntries_of_latest latest, proper.baseName_filename hg] at mem
    obtain ⟨e, he, rfl⟩ := List.mem_map.mp mem
    obtain ⟨he, version, file⟩ := mem_entriesOfFile_iff.mp he
    rw [← kept, ← same]
    exact faithful v latest e he version g.filename file

/-- The answers to a plan begin with what `f` makes of the dirty texts of each file. -/
theorem Plan.RenderedBy.dirtyTexts {plan : Plan} {translator : Translator}
    {results : FileResults} (rendered : plan.RenderedBy translator f)
    (answered : plan.Answered translator results) {file : FilePlan} (hfile : file ∈ plan.files) :
    file.dirtyTexts.map f <+: FileResults.answers results file.filename := by
  by_cases empty : file.dirtyTexts = []
  · rw [empty]
    exact List.nil_prefix
  · have asked : ⟨file.filename, file.dirtyTexts⟩ ∈ plan.requests :=
      List.mem_map.mpr ⟨file, List.mem_filter.mpr ⟨hfile, by simpa using empty⟩, rfl⟩
    exact rendered results answered _ asked

/-- From a faithful archive a step renders by `f`. -/
theorem UpdateStep.Taken.rendersBy (taken : step.Taken modName language f b)
    (ha : step.before.Consistent) (faithful : step.before.Faithful modName language f) :
    step.outcome.RendersBy f := by
  obtain ⟨-, results, answered, _, _, _, _, _, -, -, -, outcome⟩ :=
    (taken.proper.ends_update_iff ha).mp taken.ends
  have merged : step.outcome.files =
      step.files.map (step.before.mergedFile modName language results) :=
    congrArg UpdateOutcome.files outcome
  intro file hfile
  rw [merged] at hfile
  obtain ⟨g, hg, rfl⟩ := List.mem_map.mp hfile
  have planned : classify g (step.before.archivedEntries modName g.filename language) ∈
      (step.before.planOf modName language step.files).files := List.mem_map_of_mem hg
  have prefixes := taken.answers.dirtyTexts answered planned
  rw [FilePlan.dirtyTexts, List.map_map] at prefixes
  intro m hm
  -- Dirty entries take the answers in order, and clean ones keep what is read back.
  refine rendering_of_mem_fill (fun e he clean => ?_) prefixes hm
  obtain ⟨p, hp, rfl⟩ := List.mem_map.mp he
  rw [source_classifyEntry]
  exact faithful.rendering_classifyEntry taken.proper hg clean

/-! ### What a step that renders by the function leaves -/

/-- Files that are settled with what `f` makes of their texts leave a faithful archive. -/
theorem Archive.Settled.faithful {texts : SourceFile → List String}
    (settled : a.Settled modName language files texts v)
    (rendered : ∀ g ∈ files, texts g = g.texts.map f) : a.Faithful modName language f := by
  intro v' latest e he version file hfile
  rw [settled.latest] at latest
  cases latest
  obtain ⟨line, hline, same⟩ := settled.lines e he version
  obtain ⟨g, hg, hline⟩ := mem_sourceLines_iff.mp hline
  obtain ⟨p, hp, rfl⟩ := List.mem_map.mp hline
  obtain ⟨ofFile, key, text⟩ := EntryRow.content_eq_iff.mp same
  obtain rfl : file = g.filename := Option.some.inj (hfile.symm.trans ofFile)
  have mem : (p.1, f p.2) ∈ g.keys.zip (texts g) := by
    rw [rendered g hg, List.zip_map_right]
    exact List.mem_map_of_mem hp
  rw [key, text]
  exact settled.rendered g hg _ mem

/-- A step that renders by `f` leaves a faithful archive if the texts of its files are
new. Otherwise it stores what `f` makes of them in the version that has them. -/
theorem UpdateStep.Taken.faithful_or_stored (taken : step.Taken modName language f b)
    (only : step.before.OnlyMod modName) (past : step.before.NotAfter step.access.now)
    (renders : step.outcome.RendersBy f) :
    step.before.versionByHash? (snapshotHash step.files) = none ∧ b.Faithful modName language f ∨
      ∃ w, step.before.versionByHash? (snapshotHash step.files) = some w ∧
        Archive.putRenderings language step.access.now
          ((step.before.batch w.id (·.texts) step.files).map fun row => (row.1, f row.2))
          step.before = .ok b := by
  obtain ⟨results, -, merged, ends⟩ := taken.cases only past
  have rendered : ∀ g ∈ step.files,
      step.before.outputs modName language results g = g.texts.map f := by
    intro g hg
    refine outputs_eq_map (taken.proper.aligned _ hg) fun e he => renders _ ?_ e he
    rw [merged]
    exact List.mem_map_of_mem hg
  rcases ends with ⟨new, v, settled⟩ | ⟨w, report, known, third⟩
  · exact .inl ⟨new, settled.faithful rendered⟩
  · refine .inr ⟨w, known, ?_⟩
    rw [← Archive.batch_map, ← Archive.batch_congr rendered]
    exact Action.putRenderings_of_archiveAligned only.current third

section Stored

variable {now before : Millis} {w : VersionRow} {e : EntryRow} {file : String}
  (only : a.OnlyMod modName) (latest : a.latestVersionNamed? modName = some v)
  (stored : Archive.putRenderings language now
    ((a.batch w.id (·.texts) files).map fun row => (row.1, f row.2)) a = .ok b)

include only latest stored

/-- A key of the newest version that is given a source text in another version is read
back with what `f` makes of that. -/
theorem Archive.OnlyMod.lastRendering?_of_bound (past : a.NotAfter before) (ticks : before < now)
    (hw : w ∈ a.versions.rows) (he : e ∈ a.entries.rows) (version : e.versionId = w.id)
    (hfile : e.file = some file) {source : String}
    (bound : boundText? (a.batch w.id (·.texts) files) e.id = some source) :
    lastRendering? (b.renderingHistory v.modId file language) e.key = some (f source) := by
  have inFile : a.InFile v.modId file e :=
    ⟨he, ⟨w, hw, version.symm, only.modId_eq latest hw⟩, hfile⟩
  refine lastRendering?_of_bound_of_lt stored only.consistent ?_ inFile rfl ?_ ?_
  · intro e' inFile' key bound'
    rw [boundText?_map] at bound'
    have reached : boundText? (a.batch w.id (·.texts) files) e'.id ≠ none := by
      intro unbound
      rw [unbound] at bound'
      exact bound' rfl
    exact eq_of_bound only.consistent he version hfile inFile' key reached
  · rw [boundText?_map, bound, Option.map_some]
  · exact fun u hu => Int.lt_of_le_of_lt (past.renderings u hu) ticks

omit latest only in
/-- A key that is given nothing in the other version is read back as before. -/
theorem Archive.Consistent.lastRendering?_of_unbound (ha : a.Consistent) {modId : RowId}
    {key : String}
    (unbound : ∀ e' ∈ a.entries.rows, e'.versionId = w.id → e'.file = some file → e'.key = key →
      boundText? (a.batch w.id (·.texts) files) e'.id = none) :
    lastRendering? (b.renderingHistory modId file language) key =
      lastRendering? (a.renderingHistory modId file language) key := by
  apply Archive.lastRendering?_of_unbound stored ha
  intro e' inFile key
  rw [boundText?_map, Option.map_eq_none_iff]
  by_contra bound
  obtain ⟨e'', he'', version, hid⟩ := exists_entry_of_bound bound
  obtain rfl : e'' = e' := ha.entries.unique.eq_of_key_eq he'' inFile.mem hid
  exact bound (unbound e'' he'' version inFile.file key)

end Stored

/-! ### Steps and runs -/

/-- A step of a run that renders by `f` leaves a faithful archive if it found one and is
harmless. -/
theorem UpdateStep.Taken.faithful (taken : step.Taken modName language f b)
    (only : step.before.OnlyMod modName) {before : Millis} (past : step.before.NotAfter before)
    (ticks : before < step.access.now) (harmless : step.Harmless modName f)
    (faithful : step.before.Faithful modName language f) : b.Faithful modName language f := by
  have renders := taken.rendersBy only.consistent faithful
  rcases taken.faithful_or_stored only (past.mono (Int.le_of_lt ticks)) renders with
    ⟨-, faithful⟩ | ⟨w, known, stored⟩
  · exact faithful
  · obtain ⟨hw, -⟩ := only.consistent.hashes.find?_eq_some_iff.mp known
    intro v latest e he version file hfile
    rw [Archive.putRenderings_frame stored] at latest he
    -- A key that is rendered in the other version has to be given the same rendering; any
    -- other key is read back as before.
    by_cases rebound : ∃ source, step.Rebinds e source
    · obtain ⟨source, rebinds⟩ := rebound
      have same := harmless v latest e he version source rebinds
      obtain ⟨w', known', e', he', version', hfile', key, bound⟩ := rebinds
      rw [known] at known'
      cases known'
      rw [← same, ← key]
      exact only.lastRendering?_of_bound latest stored past ticks hw he' version'
        (hfile'.trans hfile) bound
    · rw [only.consistent.lastRendering?_of_unbound stored]
      · exact faithful v latest e he version file hfile
      · intro e' he' version' hfile' key
        by_contra bound
        obtain ⟨source, bound⟩ := Option.ne_none_iff_exists'.mp bound
        exact rebound ⟨source, w, known, e', he', version', hfile'.trans hfile.symm, key, bound⟩

/-- The times of a run have a latest before the next step. -/
theorem UpdateRun.notAfter_pred (run : UpdateRun modName language f steps a) {time : Millis}
    (ticks : ∀ s ∈ steps, s.access.now < time) : a.NotAfter (time - 1) :=
  run.notAfter fun s hs => Int.le_sub_one_of_lt (ticks s hs)

/-- A run of harmless steps leaves a faithful archive. -/
theorem UpdateRun.faithful (run : UpdateRun modName language f steps a)
    (harmless : ∀ s ∈ steps, s.Harmless modName f) : a.Faithful modName language f := by
  induction run with
  | nil =>
    intro v latest
    cases latest
  | @cons step earlier b run ticks taken ih =>
    have before := ih fun s hs => harmless s (List.mem_cons_of_mem _ hs)
    exact taken.faithful run.onlyMod (run.notAfter_pred ticks) (Int.sub_one_lt_of_le (Int.le_refl _))
      (harmless step List.mem_cons_self) before

/-- The name of the mod of a step is not blank. -/
theorem UpdateStep.Taken.named (taken : step.Taken modName language f b)
    (ha : step.before.Consistent) : Text.allBlank modName = false := by
  obtain ⟨-, _, -, _, _, _, _, _, first, -⟩ := (taken.proper.ends_update_iff ha).mp taken.ends
  exact (Action.ends_ensureNamedMod_iff.mp first).1

/-- A step of a run that renders by `f` and leaves a faithful archive is harmless: a key
that it renders in another version is read back with this rendering. -/
theorem UpdateStep.Taken.harmless (taken : step.Taken modName language f b)
    (only : step.before.OnlyMod modName) {before : Millis} (past : step.before.NotAfter before)
    (ticks : before < step.access.now) (renders : step.outcome.RendersBy f)
    (faithful : b.Faithful modName language f) : step.Harmless modName f := by
  intro v latest e he version source rebinds
  obtain ⟨w, known, e', he', version', hfile', key, bound⟩ := rebinds
  obtain ⟨file, hfile, -⟩ := only.lines e he
  rcases taken.faithful_or_stored only (past.mono (Int.le_of_lt ticks)) renders with
    ⟨new, -⟩ | ⟨w', known', stored⟩
  · rw [new] at known
    cases known
  · rw [known] at known'
    cases known'
    obtain ⟨hw, -⟩ := only.consistent.hashes.find?_eq_some_iff.mp known
    have read := only.lastRendering?_of_bound latest stored past ticks hw he' version'
      (hfile'.trans hfile) bound
    -- The entry is of the newest version afterwards, too, so its text is rendered there.
    have frame := Archive.putRenderings_frame stored
    have latestb : b.latestVersionNamed? modName = some v := by
      rw [frame]
      exact latest
    have heb : e ∈ b.entries.rows := by
      rw [frame]
      exact he
    have kept := faithful v latestb e heb version file hfile
    rw [key, kept] at read
    exact (Option.some.inj read).symm

/-! ### How a run goes on -/

/-- In a file of one key of the newest version, with its text there, the key keeps what is
read back for it. -/
theorem Archive.exists_rendering_single (ha : a.Consistent)
    (latest : a.latestVersionNamed? modName = some v) {e : EntryRow} (he : e ∈ a.entries.rows)
    (version : e.versionId = v.id) {file : String} (hfile : e.file = some file)
    (proper : ProperFiles [.single file e.key e.text]) (results : FileResults) :
    ∃ m ∈ (a.mergedFile modName language results (.single file e.key e.text)).entries,
      m.source = e.text ∧
        m.rendering = lastRendering? (a.renderingHistory v.modId file language) e.key := by
  have normal : Key.normalize e.key = e.key :=
    proper.normalized _ List.mem_cons_self ⟨e.key, none⟩ List.mem_cons_self
  have holds : a.Holds v.id [.single file e.key e.text] := by
    intro line hline
    obtain ⟨g, hg, hline⟩ := mem_sourceLines_iff.mp hline
    rw [List.mem_singleton.mp hg] at hline
    obtain ⟨p, hp, rfl⟩ := List.mem_map.mp hline
    rw [show p = (⟨e.key, none⟩, e.text) from List.mem_singleton.mp hp]
    exact ⟨e, he, version, EntryRow.content_eq_iff.mpr ⟨hfile, normal.symm, rfl⟩⟩
  obtain ⟨clean, kept⟩ := classifyEntry_of_latest language ha latest holds proper List.mem_cons_self
    (p := (⟨e.key, none⟩, e.text)) List.mem_cons_self
  dsimp only [SourceFile.single] at clean kept
  rw [normal] at kept
  let planned := classifyEntry (a.archivedEntries modName file language) ⟨e.key, none⟩ e.text
  refine ⟨planned.merged planned.rendering, ?_, source_classifyEntry _ _ _, kept⟩
  rw [mergedFile, FilePlan.merge, fill_of_clean]
  · exact List.mem_cons_self
  · intro e' he'
    rw [List.mem_singleton.mp he']
    exact clean

/-- A run that goes on well, whatever the next update is, has left a faithful archive. -/
theorem UpdateRun.faithful_of_forall_next (run : UpdateRun modName language f steps a)
    (early : ∀ s ∈ steps, s.access.now < Access.latestTime)
    (named : Text.allBlank modName = false)
    (well : ∀ next b, UpdateRun modName language f (next :: steps) b → next.outcome.RendersBy f) :
    a.Faithful modName language f := by
  intro v latest e he version file hfile
  have only := run.onlyMod
  obtain ⟨file', hfile', proper⟩ := only.lines e he
  obtain rfl : file' = file := Option.some.inj (hfile'.symm.trans hfile)
  -- The update of the one line of an entry shows what is read back for it.
  let access : Access := { now := Access.latestTime }
  let files := [SourceFile.single file' e.key e.text]
  obtain ⟨results, answered⟩ :=
    exists_answered_rendering (a.planOf modName language files) f
  obtain ⟨outcome, b, ends⟩ : ∃ outcome b,
      (Action.update modName none files language (.rendering f)).Ends access a outcome b :=
    Action.exists_update only.consistent only.current only.rules named proper (Int.le_refl _) rfl
      none answered
  let next : UpdateStep := ⟨a, access, none, files, .rendering f, outcome⟩
  have taken : next.Taken modName language f b := ⟨proper, renderedBy_rendering proper.names, ends⟩
  have renders := well next b (.cons run early taken)
  obtain ⟨results', -, merged, -⟩ := taken.cases only (run.notAfter fun s hs =>
    Int.le_of_lt (early s hs))
  obtain ⟨m, hm, source, kept⟩ := Archive.exists_rendering_single only.consistent latest he version
    hfile proper results'
  have written : a.mergedFile modName language results' (.single file' e.key e.text) ∈
      next.outcome.files := by
    rw [merged]
    exact List.mem_cons_self
  rw [← kept, renders _ written m hm, source]

/-- A run is harmless exactly if it goes on well: from each of its steps on, the first one
included, whatever update comes next renders by `f`. -/
theorem UpdateRun.harmless_iff (run : UpdateRun modName language f steps a)
    (early : ∀ s ∈ steps, s.access.now < Access.latestTime) :
    (∀ s ∈ steps, s.Harmless modName f) ↔
      ∀ earlier, earlier <:+ steps → ∀ next b,
        UpdateRun modName language f (next :: earlier) b → next.outcome.RendersBy f := by
  constructor
  · intro harmless earlier first next b run'
    obtain ⟨before, -, taken⟩ := run'.of_cons
    have faithful := before.faithful fun s hs => harmless s (first.subset hs)
    exact taken.rendersBy before.onlyMod.consistent faithful
  · intro well s hs
    obtain ⟨later, earlier, rfl⟩ := List.append_of_mem hs
    have first : s :: earlier <:+ later ++ s :: earlier := List.suffix_append _ _
    obtain ⟨b, run'⟩ := run.exists_of_suffix first
    have renders := well earlier ((List.suffix_cons s earlier).trans first) s b run'
    obtain ⟨before, ticks, taken⟩ := run'.of_cons
    have only := before.onlyMod
    -- After the step the archive is faithful, since the run goes on well from there.
    have faithful : b.Faithful modName language f := by
      apply run'.faithful_of_forall_next
      · exact fun s' hs' => early s' (first.subset hs')
      · exact taken.named only.consistent
      · exact fun next c run'' => well _ first next c run''
    exact taken.harmless only (before.notAfter_pred ticks) (Int.sub_one_lt_of_le (Int.le_refl _))
      renders faithful

/-- Updates with a first text and then another go on well exactly if both are harmless. -/
theorem UpdateRun.harmless_iff_of_two_texts :
    ∃ steps a, UpdateRun "Alpha" "ko" ("ko:" ++ ·) steps a ∧
      steps.map (·.files) = [[.single "a.yml" "k" "Y"], [.single "a.yml" "k" "X"]] ∧
      (∀ s ∈ steps, s.access.now < Access.latestTime) ∧
      ((∀ s ∈ steps, s.Harmless "Alpha" ("ko:" ++ ·)) ↔
        ∀ earlier, earlier <:+ steps → ∀ next b,
          UpdateRun "Alpha" "ko" ("ko:" ++ ·) (next :: earlier) b →
            next.outcome.RendersBy ("ko:" ++ ·)) := by
  obtain ⟨⟨steps, a⟩, found, files, early⟩ : ∃ x ∈ renderings? "Alpha" "ko" ("ko:" ++ ·)
      [[.single "a.yml" "k" "Y"], [.single "a.yml" "k" "X"]],
      x.1.map (·.files) = [[.single "a.yml" "k" "Y"], [.single "a.yml" "k" "X"]] ∧
        ∀ s ∈ x.1, s.access.now < Access.latestTime := by decide +kernel
  have run := (UpdateRun.of_renderings? (by decide +kernel) found).1
  exact ⟨steps, a, run, files, early, run.harmless_iff early⟩

/-- A file that goes back to a former text and forth again is given the rendering of the
former text: the third update stores it in the version of that text as the newest of the
key, and the fourth finds its own text unchanged in the version that was made last. -/
theorem UpdateRun.exists_not_rendersBy :
    ∃ steps a, UpdateRun "Alpha" "ko" ("ko:" ++ ·) steps a ∧
      steps.map (·.files) = [[.single "a.yml" "k" "Y"], [.single "a.yml" "k" "X"],
        [.single "a.yml" "k" "Y"], [.single "a.yml" "k" "X"]] ∧
      steps.head?.map (·.outcome.files) =
        some [⟨"a.yml", [⟨"k", "Y", none, some "ko:X"⟩]⟩] ∧
      ¬ ∀ s ∈ steps, s.outcome.RendersBy ("ko:" ++ ·) := by
  obtain ⟨⟨steps, a⟩, found, files, last, wrong⟩ : ∃ x ∈ renderings? "Alpha" "ko" ("ko:" ++ ·)
      [[.single "a.yml" "k" "Y"], [.single "a.yml" "k" "X"], [.single "a.yml" "k" "Y"],
        [.single "a.yml" "k" "X"]],
      x.1.map (·.files) = [[.single "a.yml" "k" "Y"], [.single "a.yml" "k" "X"],
        [.single "a.yml" "k" "Y"], [.single "a.yml" "k" "X"]] ∧
      x.1.head?.map (·.outcome.files) = some [⟨"a.yml", [⟨"k", "Y", none, some "ko:X"⟩]⟩] ∧
      ¬ ∀ s ∈ x.1, s.outcome.RendersBy ("ko:" ++ ·) := by decide +kernel
  have run := (UpdateRun.of_renderings? (by decide +kernel) found).1
  exact ⟨steps, a, run, files, last, wrong⟩

end LocalizationMemory
