import LocalizationMemory.Update

/-!
# The writes of an update

An update first compares and has its plan answered, and then writes up to three times: its
mod, its version, its renderings. Each write reads the clock and takes the right to write
for itself, so another connection may hold the right at one of them and not at another.

## Main definitions

* `WriteAccesses` — what each of the writes is given
* `Action.given` — an action with an access of its own
* `Action.archiveMergedBy`, `Action.updateBy` — an update with an access for each write

## Main results

* `Action.updateBy_forAll` — an update has one access for all of them
-/

namespace LocalizationMemory

/-- What each of the writes of an update is given. -/
structure WriteAccesses where
  mod : Access
  snapshot : Access
  renderings : Access

/-- The same for all of them. -/
def Access.forAll (access : Access) : WriteAccesses := ⟨access, access, access⟩

namespace Action

/-- An action with an access of its own. -/
def given {α : Type} (own : Access) (act : Action α) : Action α := fun _ a => act own a

/-- Archive a merged set as a snapshot of its mod, with an access for each write. -/
def archiveMergedBy (w : WriteAccesses) (merged : MergedSet) (remoteId : Option String) :
    Action (RowId × ArchiveReport) := do
  let modId ← (ensureNamedMod merged.modName remoteId).given w.mod
  let snapshot ← (snapshotChecked modId merged.sourceFiles).given w.snapshot
  let r ← (archiveAligned snapshot.versionId merged.alignedRenderings merged.sourceFiles
    merged.language).given w.renderings
  return (snapshot.versionId, r)

/-- Update a mod from its source files, with an access for each write. -/
def updateBy (w : WriteAccesses) (modName : String) (remoteId : Option String)
    (files : List SourceFile) (language : String) (translator : Translator) :
    Action UpdateOutcome :=
  if files.isEmpty then failWith (.input .noSourceFiles)
  else do
    let plan ← plan modName files language
    let results ← translate plan translator
    let merged := plan.merge results
    let (versionId, archive) ← archiveMergedBy w merged remoteId
    let outcome : UpdateOutcome := ⟨plan.summary, versionId, archive, merged.files, merged.missing⟩
    report (.updated versionId outcome.description)
    return outcome

variable {access : Access} {a : Archive}

/-- An update is one with the same access for all of its writes. -/
theorem updateBy_forAll (modName : String) (remoteId : Option String) (files : List SourceFile)
    (language : String) (translator : Translator) :
    updateBy access.forAll modName remoteId files language translator access a =
      update modName remoteId files language translator access a := by
  rw [updateBy, update]
  split
  · rfl
  · rfl

end Action

end LocalizationMemory
