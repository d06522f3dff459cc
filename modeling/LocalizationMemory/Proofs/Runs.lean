import LocalizationMemory.Proofs.ReadBack

/-!
# Runs of updates

From an empty archive one mod is updated into one language again and again, each time
later than before, by a translator that renders what it is asked for as a given function
of texts does. An archive that is left by such a run is of this mod alone, and all its
entries are lines of proper files.

## Main definitions

* `UpdateStep`, `UpdateStep.Taken` — an update, and that it took place
* `UpdateRun` — updates one after the other, the last one first
* `Archive.OnlyMod` — an archive of one mod, of lines of proper files

## Main results

* `UpdateRun.onlyMod`, `UpdateRun.notAfter` — what holds after a run
* `UpdateStep.Taken.cases` — a step settles its files, or archives them to the version
  that has their texts
* `Action.exists_update` — an update takes place if nothing stands in its way
-/

namespace LocalizationMemory

/-- One update of a run. -/
structure UpdateStep where
  before : Archive
  access : Access
  remoteId : Option String
  files : List SourceFile
  translator : Translator
  outcome : UpdateOutcome

/-- Whatever a translator answers to a plan has what `f` makes of the texts that are
requested. Answers beyond them are ignored, so they may be anything. -/
def Plan.RenderedBy (plan : Plan) (translator : Translator) (f : String → String) : Prop :=
  ∀ results, plan.Answered translator results →
    ∀ r ∈ plan.requests, r.texts.map f <+: FileResults.answers results r.filename

/-- The step is one of proper files that are rendered by `f`, and it left an archive. -/
structure UpdateStep.Taken (step : UpdateStep) (modName language : String)
    (f : String → String) (b : Archive) : Prop where
  proper : ProperFiles step.files
  answers : (step.before.planOf modName language step.files).RenderedBy step.translator f
  ends : (Action.update modName step.remoteId step.files language step.translator).Ends
    step.access step.before step.outcome b

/-- Updates of a mod one after the other, from an empty archive and each at a later time
than those before. The last one stands first. -/
inductive UpdateRun (modName language : String) (f : String → String) :
    List UpdateStep → Archive → Prop
  | nil : UpdateRun modName language f [] .fresh
  | cons {step : UpdateStep} {earlier : List UpdateStep} {b : Archive}
      (run : UpdateRun modName language f earlier step.before)
      (ticks : ∀ s ∈ earlier, s.access.now < step.access.now)
      (taken : step.Taken modName language f b) :
      UpdateRun modName language f (step :: earlier) b

variable {modName language : String} {f : String → String} {a b : Archive}
  {step : UpdateStep} {steps earlier : List UpdateStep}

/-- The last step of a run took place after the others. -/
theorem UpdateRun.of_cons (run : UpdateRun modName language f (step :: earlier) b) :
    UpdateRun modName language f earlier step.before ∧
      (∀ s ∈ earlier, s.access.now < step.access.now) ∧ step.Taken modName language f b := by
  cases run with
  | cons run ticks taken => exact ⟨run, ticks, taken⟩

/-- What comes first in a run is a run. -/
theorem UpdateRun.exists_of_suffix (run : UpdateRun modName language f steps a)
    (first : earlier <:+ steps) : ∃ b, UpdateRun modName language f earlier b := by
  induction run with
  | nil =>
    rw [List.suffix_nil.mp first]
    exact ⟨_, .nil⟩
  | @cons step r b run ticks taken ih =>
    rcases List.suffix_cons_iff.mp first with rfl | first
    · exact ⟨b, .cons run ticks taken⟩
    · exact ih first

/-- Under a clock that goes forward nothing is of a later time than the last update. -/
theorem UpdateRun.notAfter (run : UpdateRun modName language f steps a) {time : Millis}
    (past : ∀ s ∈ steps, s.access.now ≤ time) : a.NotAfter time := by
  induction run generalizing time with
  | nil => exact ⟨by simp [Archive.fresh], by simp [Archive.fresh]⟩
  | @cons step r b run ticks taken ih =>
    have before := ih fun s hs => Int.le_of_lt (ticks s hs)
    exact (before.update taken.ends).mono (past step List.mem_cons_self)

/-! ### Archives of one mod -/

/-- A file of one key. -/
def SourceFile.single (filename key text : String) : SourceFile := ⟨filename, [⟨key, none⟩], [text]⟩

/-- A line of proper files makes a proper file of its own. -/
theorem ProperFiles.single {files : List SourceFile} (proper : ProperFiles files)
    {line : SourceLine} (hline : line ∈ sourceLines files) :
    ProperFiles [.single line.file line.key line.text] := by
  obtain ⟨g, hg, hline⟩ := mem_sourceLines_iff.mp hline
  obtain ⟨p, hp, rfl⟩ := List.mem_map.mp hline
  have normal := proper.normalize_of_mem_pairs hg hp
  refine ⟨by simp, ?_, by simp, ?_, ?_, ?_⟩
  · simp [SourceFile.single]
  · simpa [SourceFile.single] using proper.plain g hg
  · simp [SourceFile.single, normal]
  · simp [SourceFile.single]

/-- The archive is of one mod and without rules, and its entries are lines of proper
files. -/
structure Archive.OnlyMod (a : Archive) (modName : String) : Prop where
  consistent : a.Consistent
  current : a.layout = .current
  rules : a.rules = []
  named : ∀ m ∈ a.mods.rows, m.name = modName
  lines : ∀ e ∈ a.entries.rows,
    ∃ file, e.file = some file ∧ ProperFiles [.single file e.key e.text]

namespace Archive.OnlyMod

theorem fresh : Archive.fresh.OnlyMod modName where
  consistent := .of_layout (.inr rfl)
  current := rfl
  rules := rfl
  named := by simp [Archive.fresh]
  lines := by simp [Archive.fresh]

variable (only : a.OnlyMod modName)

include only

/-- Every version is of the mod. -/
theorem exists_mod? {w : VersionRow} (hw : w ∈ a.versions.rows) :
    ∃ m, a.mod? modName = some m ∧ m.id = w.modId := by
  obtain ⟨m, hm, hid⟩ := List.mem_map.mp (only.consistent.modOfVersion w hw)
  refine ⟨m, only.consistent.modNames.find?_eq_some_iff.mpr ⟨hm, only.named m hm⟩, hid⟩

/-- Every version is of the mod of the newest one. -/
theorem modId_eq {v w : VersionRow} (latest : a.latestVersionNamed? modName = some v)
    (hw : w ∈ a.versions.rows) : w.modId = v.modId := by
  obtain ⟨m, hm, hid, -⟩ := (latestVersionNamed?_eq_some_iff only.consistent).mp latest
  obtain ⟨m', hm', hid'⟩ := only.exists_mod? hw
  rw [hm] at hm'
  cases hm'
  exact hid'.symm.trans hid

variable {access : Access} {files : List SourceFile} {modId : RowId}

theorem ensureNamedMod {remoteId : Option String}
    (ends : (Action.ensureNamedMod modName remoteId).Ends access a modId b) :
    b.OnlyMod modName := by
  have consistent := only.consistent.ensureNamedMod ends
  have frame := (Action.ensureNamedMod_frame ends).2
  refine ⟨consistent, ?_, ?_, ?_, ?_⟩
  · rw [frame]
    exact only.current
  · rw [frame]
    exact only.rules
  · obtain ⟨-, -, ⟨m, -, -, rfl⟩ | ⟨new, -, -, hb⟩⟩ := Action.ends_ensureNamedMod_iff.mp ends
    · exact only.named
    · intro m hm
      rw [(addedMod_of_addMod new hb).mods] at hm
      rcases List.mem_append.mp hm with hm | hm
      · exact only.named m hm
      · rw [List.mem_singleton.mp hm]
  · rw [frame]
    exact only.lines

theorem snapshotChecked (proper : ProperFiles files) {s : Snapshot}
    (ends : (Action.snapshotChecked modId files).Ends access a s b) : b.OnlyMod modName := by
  have frame := Action.snapshotChecked_frame ends
  obtain ⟨-, ⟨v, -, -, rfl⟩ | ⟨-, -, -, hb⟩⟩ := Action.ends_snapshotChecked_iff.mp ends
  · exact only
  · -- The mod is touched but keeps its name; the entries are those of before and the lines.
    have added := (addedVersion_of_addVersion only.consistent proper hb).1
    have layout : b.layout = a.layout := by rw [frame]
    have rules : b.rules = a.rules := by rw [frame]
    refine ⟨only.consistent.addVersion hb, layout.trans only.current, rules.trans only.rules,
      ?_, ?_⟩
    · intro m hm
      rw [added.frame] at hm
      obtain ⟨m', hm', rfl⟩ := List.mem_map.mp hm
      split
      · exact only.named m' hm'
      · exact only.named m' hm'
    · intro e he
      by_cases version : e.versionId = s.versionId
      · obtain ⟨line, hline, same⟩ := added.exists_line only.consistent he version
        obtain ⟨file, key, text⟩ := EntryRow.content_eq_iff.mp same
        rw [key, text]
        exact ⟨line.file, file, proper.single hline⟩
      · obtain ⟨new, news, rows⟩ := added.entries
        rw [rows] at he
        rcases List.mem_append.mp he with he | he
        · exact only.lines e he
        · exact absurd (news.ofVersion e he) version

theorem update (proper : ProperFiles files) {remoteId : Option String} {translator : Translator}
    {outcome : UpdateOutcome}
    (ends : (Action.update modName remoteId files language translator).Ends access a outcome b) :
    b.OnlyMod modName := by
  have consistent := only.consistent.update ends
  obtain ⟨-, results, -, modId, c, s, d, report, first, second, third, rfl⟩ :=
    (proper.ends_update_iff only.consistent).mp ends
  have only := (only.ensureNamedMod first).snapshotChecked proper second
  have frame := Action.archiveAligned_frame only.current third
  rw [frame] at consistent ⊢
  exact ⟨consistent, only.current, only.rules, only.named, only.lines⟩

end Archive.OnlyMod

/-- After a run the archive is of the mod alone. -/
theorem UpdateRun.onlyMod (run : UpdateRun modName language f steps a) : a.OnlyMod modName := by
  induction run with
  | nil => exact .fresh
  | cons run ticks taken ih => exact ih.update taken.proper taken.ends

/-! ### What a step does -/

/-- A step merges its files with the answers, and settles them if their texts are new.
Otherwise it archives them to the version of their texts. -/
theorem UpdateStep.Taken.cases (taken : step.Taken modName language f b)
    (only : step.before.OnlyMod modName) (past : step.before.NotAfter step.access.now) :
    ∃ results, (step.before.planOf modName language step.files).Answered step.translator results ∧
      step.outcome.files = step.files.map (step.before.mergedFile modName language results) ∧
      (step.before.versionByHash? (snapshotHash step.files) = none ∧
          (∃ v, b.Settled modName language step.files
            (step.before.outputs modName language results) v) ∨
        ∃ w report, step.before.versionByHash? (snapshotHash step.files) = some w ∧
          (Action.archiveAligned w.id
            (alignedTexts (step.before.outputs modName language results) step.files) step.files
              language).Ends step.access step.before report b) := by
  have ha := only.consistent
  have proper := taken.proper
  obtain ⟨current, results, answered, modId, c, s, d, report, first, second, third, outcome⟩ :=
    (proper.ends_update_iff ha).mp taken.ends
  refine ⟨results, answered, congrArg UpdateOutcome.files outcome, ?_⟩
  cases known : step.before.versionByHash? (snapshotHash step.files) with
  | none =>
    have lengths : ∀ g ∈ step.files,
        g.keys.length = (step.before.outputs modName language results g).length :=
      fun g hg => proper.length_outputs results hg
    have settled := Action.settled_of_new ha past proper lengths current known first second third
    exact .inl ⟨rfl, _, settled.1⟩
  | some w =>
    -- The version is of the one mod there is, so the mod is found, too.
    obtain ⟨hw, -⟩ := ha.hashes.find?_eq_some_iff.mp known
    obtain ⟨m, hm, -⟩ := only.exists_mod? hw
    obtain ⟨rfl, hid⟩ := ProperFiles.archiveAligned_of_known hm known first second
    rw [hid] at third
    exact .inr ⟨w, report, rfl, third⟩

namespace Action

variable {access : Access} {files : List SourceFile}

open Archive

/-- An update of proper files takes place if the plan is answered and nothing stands in
the way. -/
theorem exists_update (ha : a.Consistent) (current : a.layout = .current) (rules : a.rules = [])
    (named : Text.allBlank modName = false) (proper : ProperFiles files)
    (early : access.now ≤ Access.latestTime) (free : access.obstacle = none)
    (remoteId : Option String) {translator : Translator} {results : FileResults}
    (answered : (a.planOf modName language files).Answered translator results) :
    ∃ outcome b, (update modName remoteId files language translator).Ends access a outcome b := by
  have tables := hasTables_of_current current
  -- The mod and the version are found or can be made, and then the results can be archived.
  obtain ⟨modId, c, first⟩ := exists_ends_ensureNamedMod rules tables ⟨early, free⟩ named remoteId
  obtain ⟨⟨m, hm, rfl⟩, frame⟩ := ensureNamedMod_frame first
  have hc := ha.ensureNamedMod first
  have currentc : c.layout = .current := by rw [frame]; exact current
  have rulesc : c.rules = [] := by rw [frame]; exact rules
  have tablesc := hasTables_of_current currentc
  obtain ⟨s, d, second⟩ : ∃ s d, (snapshotChecked m.id files).Ends access c s d := by
    cases hv : c.versionByHash? (snapshotHash files) with
    | some v => exact ⟨_, c, ends_snapshotChecked_iff.mpr ⟨tablesc, .inl ⟨v, hv, rfl, rfl⟩⟩⟩
    | none =>
      obtain ⟨s, d, hd⟩ := exists_addVersion access.now rulesc (hasFilePaths_of_current currentc) hv
        ⟨m, (hc.modNames.find?_eq_some_iff.mp hm).1, rfl⟩
      exact ⟨s, d, ends_snapshotChecked_iff.mpr ⟨tablesc, .inr ⟨hv, early, free, hd⟩⟩⟩
  have framed := snapshotChecked_frame second
  have layoutd : d.layout = c.layout := by rw [framed]
  have rulesd : d.rules = c.rules := by rw [framed]
  obtain ⟨report, b, third⟩ := exists_ends_archiveAligned s.versionId language
    (hasFilePaths_of_current (layoutd.trans currentc)) (rulesd.trans rulesc) early free files
    (alignedTexts (a.outputs modName language results) files)
  exact ⟨_, b, (proper.ends_update_iff ha).mpr
    ⟨current, results, answered, m.id, c, s, d, report, first, second, third, rfl⟩⟩

end Action

/-! ### Making runs -/

/-- The files of the requests have distinct names if those of the plan do. -/
theorem nodup_filename_requests {plan : Plan} (names : (plan.files.map (·.filename)).Nodup) :
    (plan.requests.map (·.filename)).Nodup := by
  have same : plan.requests.map (·.filename) =
      (plan.files.filter fun f => !f.dirtyTexts.isEmpty).map (·.filename) := by
    rw [Plan.requests, List.map_map]
    rfl
  rw [same]
  exact names.sublist (List.filter_sublist.map _)

/-- There is nothing to request where nothing is dirty. -/
theorem requests_of_isUpToDate {plan : Plan} (upToDate : plan.isUpToDate = true) :
    plan.requests = [] := by
  have clean := Plan.isUpToDate_iff.mp upToDate
  have none : plan.files.filter (fun f => !f.dirtyTexts.isEmpty) = [] := by
    apply List.filter_eq_nil_iff.mpr
    intro f hf dirty
    have texts : f.dirtyTexts = [] := by
      rw [FilePlan.dirtyTexts, List.map_eq_nil_iff]
      exact List.filter_eq_nil_iff.mpr fun e he => by simp [clean f hf e he]
    simp [texts] at dirty
  rw [Plan.requests, none, List.map_nil]

/-- A translator that renders every text by `f` renders a plan by it. -/
theorem renderedBy_rendering {files : List SourceFile} (names : (files.map (·.filename)).Nodup) :
    (a.planOf modName language files).RenderedBy (.rendering f) f := by
  intro results answered r hr
  rw [Plan.Answered] at answered
  split at answered
  · next upToDate =>
    rw [requests_of_isUpToDate upToDate] at hr
    cases hr
  · cases answered
    -- Names tell the requests apart, so a file is answered with its own texts.
    have planned : ((a.planOf modName language files).files.map (·.filename)).Nodup := by
      rw [Archive.planOf, List.map_map]
      exact names
    have asked : (((a.planOf modName language files).requests.map fun r =>
        (r.filename, r.texts.map f)).map (·.1)).Nodup := by
      rw [List.map_map]
      exact nodup_filename_requests planned
    have answer := Dict.get?_ofList_of_mem asked (List.mem_map_of_mem hr)
    rw [FileResults.answers, answer]
    exact List.prefix_rfl

/-- A translator that renders every text answers every plan. -/
theorem exists_answered_rendering (plan : Plan) (f : String → String) :
    ∃ results, plan.Answered (.rendering f) results := by
  by_cases upToDate : plan.isUpToDate = true
  · exact ⟨∅, by rw [Plan.Answered, if_pos upToDate]⟩
  · exact ⟨_, by rw [Plan.Answered, if_neg upToDate]; rfl⟩

/-- The update of files by a translator that renders every text by `f`, with what it
leaves, if it succeeds. -/
def UpdateStep.rendering? (modName language : String) (f : String → String) (now : Millis)
    (files : List SourceFile) (a : Archive) : Option (UpdateStep × Archive) :=
  let access : Access := { now }
  let outcome := Action.update modName none files language (.rendering f) access a
  match outcome.result with
  | .ok o => some (⟨a, access, none, files, .rendering f, o⟩, outcome.archive)
  | .error _ => none

/-- Updates of files, the last ones first, each a millisecond after those before. -/
def renderings? (modName language : String) (f : String → String) :
    List (List SourceFile) → Option (List UpdateStep × Archive)
  | [] => some ([], .fresh)
  | files :: earlier => do
    let (steps, a) ← renderings? modName language f earlier
    let (step, b) ← UpdateStep.rendering? modName language f earlier.length files a
    return (step :: steps, b)

theorem UpdateStep.taken_of_rendering? {now : Millis} {files : List SourceFile}
    (proper : ProperFiles files)
    (h : UpdateStep.rendering? modName language f now files a = some (step, b)) :
    step.Taken modName language f b ∧ step.before = a ∧ step.access.now = now := by
  unfold UpdateStep.rendering? at h
  dsimp only at h
  split at h
  · next o ok =>
    cases h
    exact ⟨⟨proper, renderedBy_rendering proper.names, ok, rfl⟩, rfl, rfl⟩
  · cases h

/-- Updates of proper files that succeed are a run. -/
theorem UpdateRun.of_renderings? {history : List (List SourceFile)}
    (proper : ∀ files ∈ history, ProperFiles files)
    (h : renderings? modName language f history = some (steps, a)) :
    UpdateRun modName language f steps a ∧
      ∀ s ∈ steps, s.access.now < (history.length : Millis) := by
  induction history generalizing steps a with
  | nil =>
    cases h
    exact ⟨.nil, by simp⟩
  | cons files earlier ih =>
    simp only [renderings?, Option.bind_eq_bind, Option.bind_eq_some_iff, Option.pure_def,
      Option.some.injEq, Prod.mk.injEq, Prod.exists] at h
    obtain ⟨steps', a', first, step, b, last, rfl, rfl⟩ := h
    obtain ⟨run, past⟩ := ih (fun files h => proper files (List.mem_cons_of_mem _ h)) first
    obtain ⟨taken, rfl, now⟩ :=
      UpdateStep.taken_of_rendering? (proper files List.mem_cons_self) last
    have later : (earlier.length : Millis) < ((files :: earlier).length : Millis) :=
      Int.ofNat_lt.mpr (Nat.lt_succ_self _)
    refine ⟨.cons run (fun s hs => ?_) taken, List.forall_mem_cons.mpr ⟨?_, fun s hs => ?_⟩⟩
    · rw [now]
      exact past s hs
    · rw [now]
      exact later
    · exact Int.lt_trans (past s hs) later

end LocalizationMemory
