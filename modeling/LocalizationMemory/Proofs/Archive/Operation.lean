import LocalizationMemory.Adoption
import LocalizationMemory.Archive.Maintenance
import LocalizationMemory.Archive.Race
import LocalizationMemory.Archive.Rival
import LocalizationMemory.Proofs.Archive.Action
import LocalizationMemory.Update

/-!
# The operations on an archive

All operations are made of three writes: a mod is made, a version is stored with its
entries, and a batch of renderings is stored. A relation that the three writes respect
is respected by every operation, whether it succeeds or fails half way, so that an
invariant of archives is proved for the writes alone. Besides the operations there are
faults: from some size on, a table can be made to refuse inserts.

## Main definitions

* `Operation` — the operations that change an archive, with their arguments
* `Operation.action` — what an operation does
* `WritesWithin` — a relation that the writes at one time respect

## Main results

* `Action.reads_plan`, `Action.reads_bindResults` — comparing and binding only read
* `Action.reads_lookUp_ensureMod`, `Action.reads_lookUp_snapshot` — so does looking up
* `Action.moves_snapshotChecked` — a snapshot moves an archive as storing its version does
* `WritesWithin.moves_action` — every operation respects such a relation
-/

namespace LocalizationMemory

/-- The operations that change an archive. -/
inductive Operation where
  | ensureMod (name : String) (remoteId : Option String)
  | snapshot (modId : RowId) (files : List SourceFile)
  | archiveResults (versionId : RowId) (results : FileResults) (files : List SourceFile)
    (language : String)
  | putRenderings (language : String) (rows : List EntryRendering)
  | correct (modName path : String) (corrections : List Correction) (language : String)
  | adopt (modName : String) (remoteId : Option String) (files : List SourceFile)
    (renderings : List RenderingFile)
  | archiveMerged (merged : MergedSet) (remoteId : Option String)
  | update (modName : String) (remoteId : Option String) (files : List SourceFile)
    (language : String) (translator : Translator)
  /-- From now on inserts fail by a rule. -/
  | refuseInserts (rule : InsertRule)
  /-- No insert fails by a rule any more. -/
  | acceptInserts

/-- An action whose result is of no interest. -/
def Action.void {α : Type} (act : Action α) : Action Unit := act >>= fun _ => pure ()

/-- What an operation does, its result aside. -/
def Operation.action : Operation → Action Unit
  | ensureMod name remoteId => (Action.ensureMod name remoteId).void
  | snapshot modId files => (Action.snapshotChecked modId files).void
  | archiveResults versionId results files language =>
    (Action.archiveResults versionId results files language).void
  | putRenderings language rows => (Action.putRenderings language rows).void
  | correct modName path corrections language =>
    (Action.correct modName path corrections language).void
  | adopt modName remoteId files renderings =>
    (Action.adopt modName remoteId files renderings).void
  | archiveMerged merged remoteId => (Action.archiveMerged merged remoteId).void
  | update modName remoteId files language translator =>
    (Action.update modName remoteId files language translator).void
  | refuseInserts rule => Action.addRule rule
  | acceptInserts => Action.clearRules

/-- A relation that the writes at one time respect. -/
structure WritesWithin (R : Archive → Archive → Prop) (now : Millis) : Prop where
  refl : ∀ a, R a a
  trans : ∀ a b c, R a b → R b c → R a c
  addMod : ∀ a name remoteId id b, a.addMod name remoteId now = .ok (id, b) → R a b
  addVersion : ∀ a modId files s b, a.addVersion modId files now = .ok (s, b) → R a b
  putRenderings : ∀ a language rows b, Archive.putRenderings language now rows a = .ok b → R a b
  /-- What a rival may write between a look-up and a write. -/
  insertMod : ∀ a name b, a.insertMod name now = .ok b → R a b
  insertVersion : ∀ a modId hash b, a.insertVersion modId hash now = .ok b → R a b
  rules : ∀ a rules, R a { a with rules }

/-! ### Reading -/

namespace Action

theorem reads_resolve (versionId : RowId) (file rawKey : String) :
    (resolve versionId file rawKey).Reads :=
  (reads_readFilesBy _ _ _ _).bind fun _ => (reads_reportAll _).bind fun _ => reads_pure _

theorem reads_bindKeys (versionId : RowId) (filename : String)
    (pairs : List (KeyInfo × Option String)) : (bindKeys versionId filename pairs).Reads := by
  induction pairs with
  | nil => exact reads_pure _
  | cons p r ih =>
    obtain ⟨info, rendering⟩ := p
    cases rendering with
    | none => exact ih
    | some text =>
      refine Reads.bind ((reads_resolve _ _ _).bind fun found => ?_) fun _ =>
        ih.bind fun _ => reads_pure _
      cases found <;> exact reads_pure _

theorem reads_bindFile (versionId : RowId) (files : List SourceFile) (filename : String)
    (renderings : List (Option String)) :
    (bindFile versionId files filename renderings).Reads := by
  rw [bindFile]
  split
  · exact reads_pure _
  · split
    · exact (reads_report _).bind fun _ => reads_pure _
    · split
      · exact (reads_report _).bind fun _ => reads_bindKeys _ _ _
      · exact reads_bindKeys _ _ _

theorem reads_bindResults (versionId : RowId) (files : List SourceFile)
    (results : List (String × List (Option String))) :
    (bindResults versionId files results).Reads := by
  induction results with
  | nil => exact reads_pure _
  | cons p r ih => exact (reads_bindFile _ _ _ _).bind fun _ => ih.bind fun _ => reads_pure _

theorem reads_lookUp_ensureMod (name : String) (remoteId : Option String) :
    (Attempt.ensureMod name remoteId).lookUp.Reads := by
  apply Reads.bind (reads_inspect _)
  intro found
  cases found <;> exact reads_pure _

theorem reads_lookUp_snapshot (modId : RowId) (files : List SourceFile) :
    (Attempt.snapshot modId files).lookUp.Reads := by
  apply Reads.bind (reads_inspect _)
  intro found
  cases found with
  | none => exact reads_pure _
  | some v => exact (reads_report _).bind fun _ => reads_pure _

theorem reads_latestVersionNamed (modName : String) : (latestVersionNamed modName).Reads := by
  apply Reads.bind (reads_inspect _)
  intro found
  cases found with
  | none => exact reads_pure _
  | some m => exact reads_inspect _

theorem reads_archivedEntries (modName path language : String) :
    (archivedEntries modName path language).Reads := by
  apply Reads.bind (reads_latestVersionNamed _)
  intro found
  cases found with
  | none => exact reads_pure _
  | some v => exact reads_readFilesBy _ _ _ _

theorem reads_classifyAll (modName language : String) (files : List SourceFile) :
    (classifyAll modName language files).Reads := by
  induction files with
  | nil => exact reads_pure _
  | cons file r ih =>
    exact (reads_archivedEntries _ _ _).bind fun _ => ih.bind fun _ => reads_pure _

/-- Comparing files with an archive leaves the archive as it was. -/
theorem reads_plan (modName : String) (files : List SourceFile) (language : String) :
    (plan modName files language).Reads :=
  (reads_classifyAll _ _ _).bind fun _ => (reads_report _).bind fun _ => reads_pure _

theorem reads_translate (plan : Plan) (translator : Translator) :
    (Action.translate plan translator).Reads := by
  rw [Action.translate]
  split
  · exact reads_pure _
  · apply Reads.bind (reads_report _)
    intro _
    split
    · exact reads_pure _
    · exact reads_fail _
    · exact reads_fail _

/-! ### Storing a version -/

section Snapshot

variable {R : Archive → Archive → Prop} {access : Access} (refl : ∀ a, R a a)
  (trans : ∀ a b c, R a b → R b c → R a c) {modId : RowId} {files : List SourceFile}
  (addVersion : ∀ a s b, a.addVersion modId files access.now = .ok (s, b) → R a b)

include refl trans addVersion

theorem moves_commitVersion : Moves R access (commitVersion modId files) := by
  refine .bind trans (moves_write refl fun a s b h => ?_) fun s => ?_
  · -- Under the right to write the hash is looked up again, and only a new one is stored.
    split at h
    · cases h
      exact refl a
    · exact addVersion a s b (Access.change_eq_ok_iff.mp h).2.2.2
  · split
    · exact .bind trans (moves_report refl _) fun _ =>
        .bind trans (moves_report refl _) fun _ => moves_pure refl _
    · exact moves_pure refl _

/-- A snapshot moves an archive as storing its version does. -/
theorem moves_snapshot : Moves R access (snapshot modId files) := by
  apply Moves.bind trans (moves_inspect refl _)
  intro found
  cases found with
  | some v => exact .bind trans (moves_report refl _) fun _ => moves_pure refl _
  | none => exact moves_commitVersion refl trans addVersion

theorem moves_snapshotChecked : Moves R access (snapshotChecked modId files) :=
  .bind trans (moves_reportAll refl _) fun _ => moves_snapshot refl trans addVersion

end Snapshot

end Action

/-! ### Whole operations -/

namespace WritesWithin

open LocalizationMemory.Action

variable {R : Archive → Archive → Prop} {access : Access} (within : WritesWithin R access.now)

include within

theorem moves_commitMod (name : String) (remoteId : Option String) :
    Moves R access (commitMod name remoteId) := by
  refine .bind within.trans (moves_write_change within.refl fun a id b h => ?_) fun id =>
    .bind within.trans (moves_report within.refl _) fun _ => moves_pure within.refl _
  exact within.addMod a name remoteId id b h

theorem moves_ensureMod (name : String) (remoteId : Option String) :
    Moves R access (ensureMod name remoteId) := by
  apply Moves.bind within.trans (moves_inspect within.refl _)
  intro found
  cases found with
  | some m => exact moves_pure within.refl _
  | none => exact within.moves_commitMod name remoteId

theorem moves_ensureNamedMod (name : String) (remoteId : Option String) :
    Moves R access (ensureNamedMod name remoteId) := by
  rw [ensureNamedMod]
  split
  · exact moves_fail within.refl _
  · exact within.moves_ensureMod name remoteId

theorem moves_snapshot (modId : RowId) (files : List SourceFile) :
    Moves R access (snapshot modId files) :=
  Action.moves_snapshot within.refl within.trans fun a s b => within.addVersion a modId files s b

theorem moves_snapshotChecked (modId : RowId) (files : List SourceFile) :
    Moves R access (snapshotChecked modId files) :=
  Action.moves_snapshotChecked within.refl within.trans fun a s b =>
    within.addVersion a modId files s b

theorem moves_putRenderings (language : String) (rows : List EntryRendering) :
    Moves R access (Action.putRenderings language rows) := by
  rw [Action.putRenderings]
  split
  · exact moves_pure within.refl _
  · apply moves_write_change within.refl
    intro a n b h
    cases hp : Archive.putRenderings language access.now rows a with
    | error cause => simp [hp, Except.map] at h
    | ok c =>
      simp only [hp, Except.map, Except.ok.injEq, Prod.mk.injEq] at h
      exact within.putRenderings a language rows b (h.2 ▸ hp)

theorem moves_archiveAligned (versionId : RowId) (results : AlignedResults)
    (files : List SourceFile) (language : String) :
    Moves R access (archiveAligned versionId results files language) := by
  refine .bind within.trans ((reads_bindResults _ _ _).moves within.refl) fun b =>
    .bind within.trans (within.moves_putRenderings _ _) fun archived => ?_
  dsimp only
  split
  · exact .bind within.trans (moves_report within.refl _) fun _ =>
      .bind within.trans (moves_report within.refl _) fun _ => moves_pure within.refl _
  · exact .bind within.trans (moves_report within.refl _) fun _ => moves_pure within.refl _

theorem moves_correct (modName path : String) (corrections : List Correction)
    (language : String) : Moves R access (correct modName path corrections language) := by
  apply Moves.bind within.trans ((reads_latestVersionNamed _).moves within.refl)
  intro found
  cases found with
  | none => exact moves_pure within.refl _
  | some v =>
    exact .bind within.trans (moves_readFilesBy within.refl _ _ _ _) fun rows =>
      within.moves_putRenderings _ _

theorem moves_archiveMerged (merged : MergedSet) (remoteId : Option String) :
    Moves R access (archiveMerged merged remoteId) :=
  .bind within.trans (within.moves_ensureNamedMod _ _) fun _ =>
    .bind within.trans (within.moves_snapshotChecked _ _) fun _ =>
      .bind within.trans (within.moves_archiveAligned _ _ _ _) fun _ => moves_pure within.refl _

theorem moves_update (modName : String) (remoteId : Option String) (files : List SourceFile)
    (language : String) (translator : Translator) :
    Moves R access (update modName remoteId files language translator) := by
  rw [update]
  split
  · exact moves_fail within.refl _
  · exact .bind within.trans ((reads_plan _ _ _).moves within.refl) fun _ =>
      .bind within.trans ((reads_translate _ _).moves within.refl) fun _ =>
        .bind within.trans (within.moves_archiveMerged _ _) fun _ =>
          .bind within.trans (moves_report within.refl _) fun _ => moves_pure within.refl _

theorem moves_archiveLanguages (versionId : RowId) (files : List SourceFile)
    (results : List (String × AlignedResults)) (done : Dict ArchiveReport) :
    Moves R access (archiveLanguages versionId files results done) := by
  induction results generalizing done with
  | nil => exact moves_pure within.refl _
  | cons p r ih =>
    obtain ⟨language, renderings⟩ := p
    rw [archiveLanguages]
    split
    · exact ih done
    · exact .bind within.trans (within.moves_archiveAligned _ _ _ _) fun _ => ih _

theorem moves_adopt (modName : String) (remoteId : Option String) (files : List SourceFile)
    (renderings : List RenderingFile) :
    Moves R access (adopt modName remoteId files renderings) := by
  refine .bind within.trans (within.moves_ensureNamedMod _ _) fun _ =>
    .bind within.trans (within.moves_snapshotChecked _ _) fun _ => ?_
  dsimp only
  split
  · exact .bind within.trans (moves_report within.refl _) fun _ => moves_pure within.refl _
  · exact .bind within.trans (within.moves_archiveLanguages _ _ _ _) fun _ =>
      .bind within.trans (moves_report within.refl _) fun _ => moves_pure within.refl _

theorem moves_void {α : Type} {act : Action α} (h : Moves R access act) :
    Moves R access act.void :=
  .bind within.trans h fun _ => moves_pure within.refl _

theorem moves_addRule (rule : InsertRule) : Moves R access (addRule rule) := by
  apply moves_alter within.refl
  intro a x b h
  cases h
  exact within.rules a _

theorem moves_clearRules : Moves R access clearRules := by
  intro a
  rw [clearRules]
  split
  · exact moves_inspect within.refl _ a
  · refine moves_alter within.refl (fun a x b h => ?_) a
    cases h
    exact within.rules a _

/-- What a rival writes moves an archive as its insert does. -/
theorem moves_intrude {table : TableName} {f : Millis → Archive → Except DatabaseFault Archive}
    (h : ∀ a b, f access.now a = .ok b → R a b) : Moves R access (intrude table f) := by
  refine moves_alter within.refl fun a x b hb => ?_
  cases written : f access.now a with
  | error cause =>
    rw [written] at hb
    cases hb
  | ok c =>
    rw [written] at hb
    cases hb
    exact h a _ written

theorem moves_rivalMod (name : String) : Moves R access (rivalMod name) := by
  refine within.moves_intrude fun a b hb => ?_
  split at hb
  · cases hb
    exact within.refl a
  · exact within.insertMod a name b hb

theorem moves_rivalVersion (modId : RowId) (hash : String) :
    Moves R access (rivalVersion modId hash) := by
  refine within.moves_intrude fun a b hb => ?_
  split at hb
  · cases hb
    exact within.refl a
  · exact within.insertVersion a modId hash b hb

/-- Every operation respects a relation that the writes respect, whether it succeeds,
is refused or fails on its way. -/
theorem moves_action (op : Operation) : Moves R access op.action := by
  cases op with
  | ensureMod name remoteId => exact within.moves_void (within.moves_ensureMod _ _)
  | snapshot modId files => exact within.moves_void (within.moves_snapshotChecked _ _)
  | archiveResults versionId results files language =>
    exact within.moves_void (within.moves_archiveAligned _ _ _ _)
  | putRenderings language rows => exact within.moves_void (within.moves_putRenderings _ _)
  | correct modName path corrections language =>
    exact within.moves_void (within.moves_correct _ _ _ _)
  | adopt modName remoteId files renderings =>
    exact within.moves_void (within.moves_adopt _ _ _ _)
  | archiveMerged merged remoteId => exact within.moves_void (within.moves_archiveMerged _ _)
  | update modName remoteId files language translator =>
    exact within.moves_void (within.moves_update _ _ _ _ _)
  | refuseInserts rule => exact within.moves_addRule rule
  | acceptInserts => exact within.moves_clearRules

end WritesWithin

end LocalizationMemory
