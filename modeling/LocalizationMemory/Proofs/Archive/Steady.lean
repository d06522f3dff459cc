import LocalizationMemory.Proofs.Archive.Batch
import LocalizationMemory.Proofs.Archive.Operation
import LocalizationMemory.Proofs.Archive.Write

/-!
# What a connection keeps in mind plays no part

Connections remember which tables they have seen and which queries they keep. Where
entries have files, nothing that can be asked of an archive depends on that: it depends on
the archive, on the time, and on what stands in the way of a change. Nor does it change
which tables there are.

## Main definitions

* `Access.bare` — the time, and what stands in the way of a change
* `Action.Steady` — the action depends on no more than these, and leaves the layout

## Main results

* `Action.Steady.bind` — one steady action after another
* `Action.steady_update`, `Action.steady_adopt`, `Action.steady_snapshot` and so on — what
  is asked of a store is steady
-/

namespace LocalizationMemory

/-- The time, and what stands in the way of a change. -/
def Access.bare (access : Access) : Access := { now := access.now, obstacle := access.obstacle }

namespace Action

variable {α β : Type}

/-- Where entries have files the action depends on the time, on what stands in the way of a change
and on the archive, whose layout it leaves as it is. -/
structure Steady (act : Action α) : Prop where
  bare : ∀ access a, a.layout.hasFilePaths = true → act access a = act access.bare a
  layout : ∀ access a, (act access a).archive.layout = a.layout

theorem Steady.bind {first : Action α} {second : α → Action β} (h : first.Steady)
    (next : ∀ x, (second x).Steady) : (first >>= second).Steady where
  bare access a paths := by
    have kept := h.layout access.bare a
    simp only [Bind.bind, andThen, h.bare access a paths]
    split
    · rfl
    · next x _ => rw [(next x).bare access _ (by rw [kept, paths])]
  layout access a := by
    simp only [Bind.bind, andThen]
    split
    · exact h.layout access a
    · next x _ => exact ((next x).layout access _).trans (h.layout access a)

theorem steady_pure (x : α) : (pure x : Action α).Steady := ⟨fun _ _ _ => rfl, fun _ _ => rfl⟩

theorem steady_report (event : Event) : (report event).Steady := ⟨fun _ _ _ => rfl, fun _ _ => rfl⟩

theorem steady_reportAll (events : List Event) : (reportAll events).Steady :=
  ⟨fun _ _ _ => rfl, fun _ _ => rfl⟩

theorem steady_fail (failure : Failure) : (fail failure : Action α).Steady :=
  ⟨fun _ _ _ => rfl, fun _ _ => rfl⟩

theorem steady_inspect (f : Archive → Except DatabaseFault α) : (inspect f).Steady where
  bare _ _ _ := rfl
  layout access a := by rw [archive_inspect]

theorem steady_readFilesBy (first : Query) (queries : Archive → List Query) (table : TableName)
    (f : Archive → α) : (readFilesBy first queries table f).Steady where
  bare access a paths := by simp only [readFilesBy, paths, if_true]
  layout access a := by rw [reads_readFilesBy first queries table f access a]

theorem steady_write {f : Access → Archive → Except Failure (α × Archive)}
    (bare : ∀ access a, f access a = f access.bare a)
    (layout : ∀ access a x b, f access a = .ok (x, b) → b.layout = a.layout) :
    (write f).Steady where
  bare access a _ := by
    unfold write
    rw [bare access a]
    rfl
  layout access a :=
    moves_write (R := fun a b => b.layout = a.layout) (fun _ => rfl) (layout access) a

theorem change_bare (table : TableName)
    (f : Millis → Archive → Except DatabaseFault (α × Archive)) (access : Access) (a : Archive) :
    access.change table f a = access.bare.change table f a := rfl

theorem steady_write_change {table : TableName}
    {f : Millis → Archive → Except DatabaseFault (α × Archive)}
    (layout : ∀ now a x b, f now a = .ok (x, b) → b.layout = a.layout) :
    (write (·.change table f)).Steady :=
  steady_write (change_bare table f) fun access a x b h =>
    layout access.now a x b (Access.change_eq_ok_iff.mp h).2.2.2

/-! ### Reading -/

theorem steady_resolve (versionId : RowId) (file rawKey : String) :
    (resolve versionId file rawKey).Steady :=
  (steady_readFilesBy _ _ _ _).bind fun _ => (steady_reportAll _).bind fun _ => steady_pure _

theorem steady_bindKeys (versionId : RowId) (filename : String)
    (pairs : List (KeyInfo × Option String)) : (bindKeys versionId filename pairs).Steady := by
  induction pairs with
  | nil => exact steady_pure _
  | cons p r ih =>
    obtain ⟨info, rendering⟩ := p
    cases rendering with
    | none => exact ih
    | some text =>
      refine Steady.bind ((steady_resolve _ _ _).bind fun found => ?_) fun _ =>
        ih.bind fun _ => steady_pure _
      cases found <;> exact steady_pure _

theorem steady_bindFile (versionId : RowId) (files : List SourceFile) (filename : String)
    (renderings : List (Option String)) :
    (bindFile versionId files filename renderings).Steady := by
  rw [bindFile]
  split
  · exact steady_pure _
  · split
    · exact (steady_report _).bind fun _ => steady_pure _
    · split
      · exact (steady_report _).bind fun _ => steady_bindKeys _ _ _
      · exact steady_bindKeys _ _ _

theorem steady_bindResults (versionId : RowId) (files : List SourceFile)
    (results : List (String × List (Option String))) :
    (bindResults versionId files results).Steady := by
  induction results with
  | nil => exact steady_pure _
  | cons p r ih => exact (steady_bindFile _ _ _ _).bind fun _ => ih.bind fun _ => steady_pure _

theorem steady_latestVersionNamed (modName : String) : (latestVersionNamed modName).Steady := by
  apply Steady.bind (steady_inspect _)
  intro found
  cases found with
  | none => exact steady_pure _
  | some m => exact steady_inspect _

theorem steady_versionSummariesNamed (modName : String) :
    (versionSummariesNamed modName).Steady := by
  apply Steady.bind (steady_inspect _)
  intro found
  cases found with
  | none => exact steady_pure _
  | some m => exact steady_inspect _

theorem steady_archivedEntries (modName path language : String) :
    (archivedEntries modName path language).Steady := by
  apply Steady.bind (steady_latestVersionNamed _)
  intro found
  cases found with
  | none => exact steady_pure _
  | some v => exact steady_readFilesBy _ _ _ _

theorem steady_classifyAll (modName language : String) (files : List SourceFile) :
    (classifyAll modName language files).Steady := by
  induction files with
  | nil => exact steady_pure _
  | cons file r ih =>
    exact (steady_archivedEntries _ _ _).bind fun _ => ih.bind fun _ => steady_pure _

theorem steady_plan (modName : String) (files : List SourceFile) (language : String) :
    (plan modName files language).Steady :=
  (steady_classifyAll _ _ _).bind fun _ => (steady_report _).bind fun _ => steady_pure _

theorem steady_translate (plan : Plan) (translator : Translator) :
    (Action.translate plan translator).Steady := by
  rw [Action.translate]
  split
  · exact steady_pure _
  · apply Steady.bind (steady_report _)
    intro _
    split
    · exact steady_pure _
    · exact steady_fail _
    · exact steady_fail _

/-! ### Writing -/

theorem steady_ensureMod (name : String) (remoteId : Option String) :
    (ensureMod name remoteId).Steady := by
  apply Steady.bind (steady_inspect _)
  intro found
  cases found with
  | some m => exact steady_pure _
  | none =>
    refine (steady_write_change fun now a id b h => ?_).bind fun _ =>
      (steady_report _).bind fun _ => steady_pure _
    rw [Archive.addMod_frame h]

theorem steady_ensureNamedMod (name : String) (remoteId : Option String) :
    (ensureNamedMod name remoteId).Steady := by
  rw [ensureNamedMod]
  split
  · exact steady_fail _
  · exact steady_ensureMod name remoteId

theorem steady_snapshot (modId : RowId) (files : List SourceFile) :
    (snapshot modId files).Steady := by
  apply Steady.bind (steady_inspect _)
  intro found
  cases found with
  | some v => exact (steady_report _).bind fun _ => steady_pure _
  | none =>
    refine (steady_write (fun access a => ?_) fun access a s b h => ?_).bind fun s => ?_
    · split
      · rfl
      · exact change_bare _ _ access a
    · split at h
      · cases h
        rfl
      · rw [Archive.addVersion_frame (Access.change_eq_ok_iff.mp h).2.2.2]
    · split
      · exact (steady_report _).bind fun _ => (steady_report _).bind fun _ => steady_pure _
      · exact steady_pure _

theorem steady_snapshotChecked (modId : RowId) (files : List SourceFile) :
    (snapshotChecked modId files).Steady :=
  (steady_reportAll _).bind fun _ => steady_snapshot modId files

theorem steady_putRenderings (language : String) (rows : List EntryRendering) :
    (putRenderings language rows).Steady := by
  rw [putRenderings]
  split
  · exact steady_pure _
  · refine steady_write_change fun now a n b h => ?_
    obtain ⟨c, hc, same⟩ := map_eq_ok_iff.mp h
    cases same
    rw [Archive.putRenderings_frame hc]

theorem steady_correct (modName path : String) (corrections : List Correction)
    (language : String) : (correct modName path corrections language).Steady := by
  apply Steady.bind (steady_latestVersionNamed _)
  intro found
  cases found with
  | none => exact steady_pure _
  | some v => exact (steady_readFilesBy _ _ _ _).bind fun _ => steady_putRenderings _ _

theorem steady_archiveAligned (versionId : RowId) (results : AlignedResults)
    (files : List SourceFile) (language : String) :
    (archiveAligned versionId results files language).Steady := by
  refine (steady_bindResults _ _ _).bind fun b => (steady_putRenderings _ _).bind fun archived => ?_
  dsimp only
  split
  · exact (steady_report _).bind fun _ => (steady_report _).bind fun _ => steady_pure _
  · exact (steady_report _).bind fun _ => steady_pure _

theorem steady_archiveMerged (merged : MergedSet) (remoteId : Option String) :
    (archiveMerged merged remoteId).Steady :=
  (steady_ensureNamedMod _ _).bind fun _ => (steady_snapshotChecked _ _).bind fun _ =>
    (steady_archiveAligned _ _ _ _).bind fun _ => steady_pure _

theorem steady_update (modName : String) (remoteId : Option String) (files : List SourceFile)
    (language : String) (translator : Translator) :
    (update modName remoteId files language translator).Steady := by
  rw [update]
  split
  · exact steady_fail _
  · exact (steady_plan _ _ _).bind fun _ => (steady_translate _ _).bind fun _ =>
      (steady_archiveMerged _ _).bind fun _ => (steady_report _).bind fun _ => steady_pure _

theorem steady_archiveLanguages (versionId : RowId) (files : List SourceFile)
    (results : List (String × AlignedResults)) (done : Dict ArchiveReport) :
    (archiveLanguages versionId files results done).Steady := by
  induction results generalizing done with
  | nil => exact steady_pure _
  | cons p r ih =>
    rw [archiveLanguages]
    split
    · exact ih done
    · exact (steady_archiveAligned _ _ _ _).bind fun _ => ih _

theorem steady_adopt (modName : String) (remoteId : Option String) (files : List SourceFile)
    (renderings : List RenderingFile) : (adopt modName remoteId files renderings).Steady := by
  refine (steady_ensureNamedMod _ _).bind fun _ => (steady_snapshotChecked _ _).bind fun _ => ?_
  dsimp only
  split
  · exact (steady_report _).bind fun _ => steady_pure _
  · exact (steady_archiveLanguages _ _ _ _).bind fun _ =>
      (steady_report _).bind fun _ => steady_pure _

end Action

end LocalizationMemory
