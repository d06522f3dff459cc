import LocalizationMemory.Comparison.Merge
import LocalizationMemory.Proofs.Source

/-!
# Comparing and merging proper files

A file that is compared with a history and merged with answers is the same file again,
so that what is archived is what was given. An entry keeps a rendering exactly if the
history has its key with the same source text; every other entry takes the next answer.

## Main results

* `classifyEntry_clean_iff` — what a history makes of an entry
* `Plan.isUpToDate_iff` — there is nothing to translate if no entry is dirty
* `fill_of_clean`, `rendering_of_mem_fill` — the renderings after a merge
* `toSourceFile_merge` — merging keeps a file but for the form of its keys
-/

namespace LocalizationMemory

/-! ### Comparing -/

/-- In a history that has a key once, the key is found. -/
theorem lastWithKey?_of_mem {history : List ArchivedEntry}
    (distinct : (history.map (·.key)).Nodup) {past : ArchivedEntry} (mem : past ∈ history) :
    lastWithKey? history past.key = some past := by
  cases found : lastWithKey? history past.key with
  | none =>
    have absent := List.find?_eq_none.mp found past (List.mem_reverse.mpr mem)
    exact absurd (beq_self_eq_true past.key) absent
  | some other =>
    have same : other.key = past.key := by simpa using List.find?_some found
    have hother : other ∈ history := List.mem_reverse.mp (List.mem_of_find?_eq_some found)
    rw [List.inj_on_of_nodup_map distinct hother mem same]

theorem mem_of_lastWithKey? {history : List ArchivedEntry} {key : String} {past : ArchivedEntry}
    (found : lastWithKey? history key = some past) : past ∈ history ∧ past.key = key :=
  ⟨List.mem_reverse.mp (List.mem_of_find?_eq_some found), by simpa using List.find?_some found⟩

/-- An entry is clean exactly if its key was last found with the same source text; then
it has the rendering found there. -/
theorem classifyEntry_clean_iff {history : List ArchivedEntry} {info : KeyInfo}
    {source : String} {rendering : Option String} :
    (classifyEntry history info source).status.isDirty = false ∧
        (classifyEntry history info source).rendering = rendering ↔
      ∃ past, lastWithKey? history (Key.normalize info.keyPart) = some past ∧
        past.source = source ∧ past.rendering = rendering := by
  unfold classifyEntry
  dsimp only
  cases lastWithKey? history (Key.normalize info.keyPart) with
  | none => simp [EntryStatus.isDirty]
  | some past =>
    by_cases same : past.source = source
    · simp [same, EntryStatus.isDirty]
    · simp [same, EntryStatus.isDirty]

theorem Summary.dirty_eq_zero_iff {entries : List PlannedEntry} :
    (Summary.ofEntries entries).dirty = 0 ↔ ∀ e ∈ entries, e.status.isDirty = false := by
  simp only [Summary.dirty, Summary.ofEntries, Summary.count, Nat.add_eq_zero_iff,
    List.countP_eq_zero, decide_eq_true_eq]
  constructor
  · rintro ⟨new, changed⟩ e he
    cases hs : e.status with
    | new => exact absurd hs (new e he)
    | changed => exact absurd hs (changed e he)
    | unchanged => rfl
  · intro clean
    constructor
    · intro e he new
      have := clean e he
      rw [new] at this
      cases this
    · intro e he changed
      have := clean e he
      rw [changed] at this
      cases this

/-- There is nothing to translate exactly if no entry is dirty. -/
theorem Plan.isUpToDate_iff {plan : Plan} :
    plan.isUpToDate = true ↔ ∀ f ∈ plan.files, ∀ e ∈ f.entries, e.status.isDirty = false := by
  rw [Plan.isUpToDate, beq_iff_eq, Plan.summary, Summary.dirty_eq_zero_iff]
  constructor
  · exact fun clean f hf e he => clean e (List.mem_flatMap.mpr ⟨f, hf, he⟩)
  · intro clean e he
    obtain ⟨f, hf, he⟩ := List.mem_flatMap.mp he
    exact clean f hf e he

/-! ### Merging -/

/-- What a merge does not touch is the same for all entries after it. -/
theorem map_fill {γ : Type} {g : MergedEntry → γ} {h : PlannedEntry → γ}
    (keeps : ∀ e rendering, g (e.merged rendering) = h e) (entries : List PlannedEntry)
    (answers : List String) : (fill entries answers).map g = entries.map h := by
  induction entries generalizing answers with
  | nil => rfl
  | cons e r ih =>
    rw [fill]
    split <;> simp [ih, keeps]

/-- Clean entries keep their renderings, whatever the answers. -/
theorem fill_of_clean {entries : List PlannedEntry}
    (clean : ∀ e ∈ entries, e.status.isDirty = false) (answers : List String) :
    fill entries answers = entries.map fun e => e.merged e.rendering := by
  induction entries with
  | nil => rfl
  | cons e r ih =>
    rw [fill, clean e List.mem_cons_self, if_neg Bool.false_ne_true, List.map_cons,
      ih fun e' he' => clean e' (List.mem_cons_of_mem _ he')]

/-- If clean entries have the renderings that `f` gives and the answers begin with those
that `f` gives to the dirty ones, all renderings are those that `f` gives. -/
theorem rendering_of_mem_fill {f : String → String} {entries : List PlannedEntry}
    {answers : List String}
    (clean : ∀ e ∈ entries, e.status.isDirty = false → e.rendering = some (f e.source))
    (answered : (entries.filter (·.status.isDirty)).map (fun e => f e.source) <+: answers)
    {m : MergedEntry} (hm : m ∈ fill entries answers) : m.rendering = some (f m.source) := by
  induction entries generalizing answers with
  | nil => cases hm
  | cons e r ih =>
    have rest : ∀ e' ∈ r, e'.status.isDirty = false → e'.rendering = some (f e'.source) :=
      fun e' he' => clean e' (List.mem_cons_of_mem _ he')
    rw [fill] at hm
    cases dirty : e.status.isDirty with
    | true =>
      -- A dirty entry takes the first of the answers and leaves the others to the rest.
      rw [List.filter_cons_of_pos (by simp [dirty]), List.map_cons] at answered
      obtain ⟨others, rfl⟩ := answered
      rw [dirty, if_pos rfl] at hm
      rcases List.mem_cons.mp hm with rfl | hm
      · rfl
      · exact ih rest (List.prefix_append _ others) hm
    | false =>
      rw [List.filter_cons_of_neg (by simp [dirty])] at answered
      rw [dirty, if_neg Bool.false_ne_true] at hm
      rcases List.mem_cons.mp hm with rfl | hm
      · exact clean e List.mem_cons_self dirty
      · exact ih rest answered hm

/-- A file that is compared and merged is the same file again, in normal form. -/
theorem toSourceFile_merge (f : SourceFile) (history : List ArchivedEntry)
    (results : FileResults) :
    ((classify f history).merge results).toSourceFile = f.normalized := by
  have keys : (fill (classify f history).entries (results.answers f.filename)).map
      (fun e => (⟨e.key, e.lineNum⟩ : KeyInfo)) = f.normalized.keys := by
    rw [map_fill (h := fun e => ⟨e.key, e.lineNum⟩) fun _ _ => rfl, classify, List.map_map]
    exact List.map_congr_left fun p _ => by simp
  have texts : (fill (classify f history).entries (results.answers f.filename)).map
      (·.source) = f.normalized.texts := by
    rw [map_source_fill, classify, List.map_map]
    exact List.map_congr_left fun p _ => source_classifyEntry _ _ _
  exact congrArg₂ (SourceFile.mk f.filename) keys texts

/-- A proper file that is compared and merged is the same file again. -/
theorem ProperFiles.toSourceFile_merge {files : List SourceFile} (proper : ProperFiles files)
    {f : SourceFile} (hf : f ∈ files) (history : List ArchivedEntry) (results : FileResults) :
    ((classify f history).merge results).toSourceFile = f := by
  rw [LocalizationMemory.toSourceFile_merge, proper.normalized_eq hf]

end LocalizationMemory
