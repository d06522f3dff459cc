import LocalizationMemory.Proofs.Archive.Binding

/-!
# What archiving results leaves

All that results are bound to are entries of one version, so of a key of a file at most
one entry is reached. If no other key means that entry, the key is read back with its text
from then on, unless another rendering of the key is of the same time. A version that
holds every line of the files has such an entry for each of their keys.

## Main results

* `Action.exists_ends_archiveAligned`, `Action.fails_archiveAligned` — results are archived
  unless the write is hindered or refused by a rule
* `Action.archiveAligned_frame` — only renderings change
* `Archive.eq_of_bound` — of a key at most one entry is reached
* `Archive.Holds.report_eq` — nothing is left out
* `Archive.MeantAlone.lastRendering?_cases`, `Archive.Holds.lastRendering?_of_new` — the
  rendering that is read back for a key
-/

namespace LocalizationMemory

variable {access : Access} {a b : Archive} {versionId : RowId} {files : List SourceFile}
  {language : String} {report : ArchiveReport}

namespace Archive

/-- What archiving stores for texts that are given for the keys of files. -/
def batch (a : Archive) (versionId : RowId) (texts : SourceFile → List String)
    (files : List SourceFile) : List EntryRendering :=
  (a.bindResults versionId files (alignedTexts texts files).entries).rows

theorem batch_congr {texts texts' : SourceFile → List String}
    (same : ∀ f ∈ files, texts f = texts' f) :
    a.batch versionId texts files = a.batch versionId texts' files := by
  have aligned : alignedTexts texts files = alignedTexts texts' files := by
    rw [alignedTexts, alignedTexts]
    apply congrArg Dict.ofList
    apply List.map_congr_left
    intro f hf
    rw [same f hf]
  rw [batch, batch, aligned]

/-- What is done to all texts is done to what is stored. -/
theorem batch_map (g : String → String) (texts : SourceFile → List String) :
    a.batch versionId (fun f => (texts f).map g) files =
      (a.batch versionId texts files).map fun row => (row.1, g row.2) := by
  have aligned : (alignedTexts (fun f => (texts f).map g) files).entries =
      (alignedTexts texts files).entries.map fun p => (p.1, p.2.map (·.map g)) := by
    rw [alignedTexts, alignedTexts, ← Dict.entries_ofList_map, List.map_map]
    apply congrArg fun l => (Dict.ofList l).entries
    apply List.map_congr_left
    intro f _
    simp [Function.comp_def]
  rw [batch, batch, aligned, rows_bindResults_map]

/-- Of a key of a file at most one entry is reached, since a version has no two. -/
theorem eq_of_bound (ha : a.Consistent) {texts : SourceFile → List String} {modId : RowId}
    {file : String} {e e' : EntryRow} (he : e ∈ a.entries.rows) (version : e.versionId = versionId)
    (hfile : e.file = some file) (inFile : a.InFile modId file e') (key : e'.key = e.key)
    (bound : boundText? (a.batch versionId texts files) e'.id ≠ none) : e' = e := by
  obtain ⟨e'', he'', version'', same⟩ := exists_entry_of_bound bound
  obtain rfl : e'' = e' := ha.entries.unique.eq_of_key_eq he'' inFile.mem same
  exact ha.entry_unique he'' he (version''.trans version.symm) (inFile.file.trans hfile.symm) key

end Archive

/-- Without a rule results can be archived if the right to write can be had. -/
theorem Action.exists_ends_archiveAligned (versionId : RowId) (language : String)
    (paths : a.layout.hasFilePaths = true) (rules : a.rules = [])
    (early : access.now ≤ Access.latestTime) (free : access.obstacle = none)
    (files : List SourceFile) (results : AlignedResults) :
    ∃ report b, (archiveAligned versionId results files language).Ends access a report b := by
  have tables := Layout.hasTables_of_hasFilePaths paths
  let bound := a.bindResults versionId files results.entries
  -- What is bound is there to be referred to.
  have present : ∀ row ∈ bound.rows, ∃ e ∈ a.entries.rows, e.id = row.1 := by
    intro row hrow
    obtain ⟨e, he, -, same⟩ := Archive.exists_entry_of_mem_rows hrow
    exact ⟨e, he, same⟩
  obtain ⟨b, hb⟩ := Archive.exists_putRenderings language access.now rules present
  have put : (putRenderings language bound.rows).Ends access a bound.rows.length b :=
    ends_putRenderings_iff.mpr ⟨hb, rfl, fun _ => ⟨early, tables, free⟩⟩
  exact ⟨⟨_, bound.unresolved, bound.unknownFiles⟩, b,
    (ends_archiveAligned_iff paths).mpr ⟨put, rfl, rfl⟩⟩

/-- Results are not archived because the write is hindered or because a rule refuses a
rendering. -/
theorem Action.fails_archiveAligned {results : AlignedResults} {failure : Failure}
    (current : a.layout = .current)
    (fails : (archiveAligned versionId results files language).Fails access a failure b) :
    b = a ∧ a.Stops access [.translatedEntries] failure := by
  have tables := Archive.hasTables_of_current current
  have paths := Archive.hasFilePaths_of_current current
  have binds : (bindResults versionId files results.entries).Ends access a
      (a.bindResults versionId files results.entries) a :=
    (ends_bindResults_iff paths).mpr ⟨rfl, rfl⟩
  rw [archiveAligned, fails_bind_iff] at fails
  obtain fails | ⟨x, c, bound, fails⟩ := fails
  · exact absurd fails binds.not_fails
  · obtain ⟨rfl, rfl⟩ := (ends_bindResults_iff paths).mp bound
    rw [fails_bind_iff] at fails
    obtain fails | ⟨n, d, -, fails⟩ := fails
    · rw [putRenderings] at fails
      split at fails
      · exact absurd fails not_fails_pure
      · obtain ⟨left, cause⟩ := fails_write_change tables fails
        refine ⟨left, cause.imp_right ?_⟩
        rintro ⟨fault, stopped, cause⟩
        refine ⟨_, List.mem_singleton_self _, fault,
          Archive.refuses_of_putRenderings (fun row hrow => ?_) (map_eq_error_iff.mp stopped),
          cause⟩
        obtain ⟨e, he, -, same⟩ := Archive.exists_entry_of_mem_rows hrow
        exact ⟨e, he, same⟩
    · -- After the write there are only reports.
      dsimp only at fails
      split at fails <;> simp [fails_bind_iff] at fails

/-! ### Archiving to a version that holds every line -/

section Archiving

variable {texts : SourceFile → List String} (ha : a.Consistent) (current : a.layout = .current)
  (ends : (Action.archiveAligned versionId (alignedTexts texts files) files language).Ends
    access a report b)

include current ends

/-- What is bound is stored as one batch. -/
theorem Action.putRenderings_of_archiveAligned :
    Archive.putRenderings language access.now (a.batch versionId texts files) a = .ok b := by
  have paths := Archive.hasFilePaths_of_current current
  exact (ends_putRenderings_iff.mp ((ends_archiveAligned_iff paths).mp ends).1).1

/-- Only renderings change. -/
theorem Action.archiveAligned_frame : b = { a with renderings := b.renderings } :=
  Archive.putRenderings_frame (putRenderings_of_archiveAligned current ends)

include ha in
/-- If the entries of the version are meant by one key each, a key is read back with the
text that was archived for it, or as before. -/
theorem Archive.MeantAlone.lastRendering?_cases (proper : ProperFiles files)
    (alone : a.MeantAlone versionId files)
    (lengths : ∀ f ∈ files, f.keys.length = (texts f).length) (past : a.NotAfter access.now)
    (modId : RowId) {f : SourceFile} (hf : f ∈ files) {p : KeyInfo × String}
    (hp : p ∈ f.keys.zip (texts f)) :
    lastRendering? (b.renderingHistory modId f.filename language) (Key.normalize p.1.keyPart) =
        some p.2 ∨
      lastRendering? (b.renderingHistory modId f.filename language) (Key.normalize p.1.keyPart) =
        lastRendering? (a.renderingHistory modId f.filename language)
          (Key.normalize p.1.keyPart) := by
  have stored := Action.putRenderings_of_archiveAligned current ends
  -- The entry of the key need not be reached, for its name may mean another entry.
  by_cases reached : ∃ e, a.InFile modId f.filename e ∧ e.key = Key.normalize p.1.keyPart ∧
      boundText? (a.batch versionId texts files) e.id ≠ none
  · obtain ⟨e, inFile, key, bound⟩ := reached
    obtain ⟨e', he', version, same⟩ := exists_entry_of_bound bound
    obtain rfl : e' = e := ha.entries.unique.eq_of_key_eq he' inFile.mem same
    have text := alone.bound ha proper lengths hf hp he' version inFile.file key
    have only : ∀ e'', a.InFile modId f.filename e'' → e''.key = Key.normalize p.1.keyPart →
        boundText? (a.batch versionId texts files) e''.id ≠ none → e'' = e' :=
      fun e'' inFile' key' =>
        eq_of_bound ha he' version inFile.file inFile' (key'.trans key.symm)
    rcases lastRendering?_of_bound stored ha only inFile key text past with read | read
    · exact .inl read
    · obtain ⟨other, after, before⟩ := read
      exact .inr (after.trans before.symm)
  · right
    apply lastRendering?_of_unbound stored ha
    intro e inFile key
    by_contra bound
    exact reached ⟨e, inFile, key, bound⟩

namespace Archive.Holds

variable (proper : ProperFiles files) (holds : a.Holds versionId files)
  (lengths : ∀ f ∈ files, f.keys.length = (texts f).length)

include ha proper holds lengths

/-- Nothing is left out. -/
theorem report_eq : report = ⟨(files.flatMap texts).length, [], []⟩ := by
  have paths := hasFilePaths_of_current current
  obtain ⟨put, unresolved, unknown⟩ := (Action.ends_archiveAligned_iff paths).mp ends
  have archived := (Action.ends_putRenderings_iff.mp put).2.1
  have complete := holds.complete ha proper lengths
  rw [complete.rows] at archived
  rw [complete.unresolved] at unresolved
  rw [complete.unknownFiles] at unknown
  obtain ⟨n, u, k⟩ := report
  simp only at archived unresolved unknown
  rw [archived, unresolved, unknown]

variable {v : VersionRow} (hv : v ∈ a.versions.rows) (hid : v.id = versionId) {f : SourceFile}
  (hf : f ∈ files) {p : KeyInfo × String} (hp : p ∈ f.keys.zip (texts f))

include hv hid hf hp

omit current ends in
/-- Every key has its entry in the version, to which its text is bound. -/
theorem exists_bound :
    ∃ e, a.InFile v.modId f.filename e ∧ e.key = Key.normalize p.1.keyPart ∧
      e.versionId = versionId ∧ boundText? (a.batch versionId texts files) e.id = some p.2 := by
  have hkey : p.1 ∈ f.keys := (List.of_mem_zip hp).1
  rw [← proper.map_fst_pairs hf] at hkey
  obtain ⟨q, hq, same⟩ := List.mem_map.mp hkey
  obtain ⟨e, he, version, file, key, -, -⟩ := holds.meaning ha hf hq
  rw [same] at key
  refine ⟨e, ⟨he, ⟨v, hv, hid.trans version.symm, rfl⟩, file⟩, key, version, ?_⟩
  exact (holds.meantAlone ha proper).bound ha proper lengths hf hp he version file key

/-- If no entry of the version had a rendering, a key is read back with the text that was
archived for it. -/
theorem lastRendering?_of_new (past : a.NotAfter access.now)
    (new : ∀ e ∈ a.entries.rows, e.versionId = versionId →
      ∀ t ∈ a.renderings.rows, t.entryId ≠ e.id) :
    lastRendering? (b.renderingHistory v.modId f.filename language) (Key.normalize p.1.keyPart) =
      some p.2 := by
  obtain ⟨e, inFile, key, version, bound⟩ :=
    holds.exists_bound ha proper lengths hv hid hf hp
  refine lastRendering?_of_bound_of_new (Action.putRenderings_of_archiveAligned current ends) ha
    (fun e' inFile' key' => ?_) inFile key bound past (new e inFile.mem version)
  exact eq_of_bound ha inFile.mem version inFile.file inFile' (key'.trans key.symm)

end Archive.Holds

end Archiving

end LocalizationMemory
