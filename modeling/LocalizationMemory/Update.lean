import LocalizationMemory.Archive.Binding
import LocalizationMemory.Archive.History
import LocalizationMemory.Comparison.Merge

/-!
# Incremental updates

An update compares source files with the archive, has the new and the changed
entries translated, merges the answers into the whole, and archives the whole as a
snapshot. A translator is not asked when nothing is dirty. An entry left without a
rendering is archived with its source text in place of one, so that a changed
text does not take over the rendering of the former one.

## Main definitions

* `Translator` — answers requests, fails, or crashes
* `Action.plan` — compare source files with the archive
* `Action.archiveMerged` — archive a merged set as a snapshot
* `Action.update` — an incremental update
* `UpdateOutcome.description` — one line on what an update did
-/

namespace LocalizationMemory

/-- What a translator does with its requests. -/
inductive TranslatorReply where
  | answers (results : FileResults)
  | failed (text : String)
  | crashed

/-- A translator answers requests for a language. -/
abbrev Translator := String → List TranslatorRequest → TranslatorReply

/-- What an update did. -/
structure UpdateOutcome where
  summary : Summary
  versionId : RowId
  archive : ArchiveReport
  files : List MergedFile
  /-- The number of dirty entries that the translator left unanswered. -/
  missing : Nat
  deriving DecidableEq, Repr

/-- One line on what an update did. -/
def UpdateOutcome.description (o : UpdateOutcome) : String :=
  s!"Build incremental update. {o.summary.new} new, {o.summary.changed} changed, " ++
    s!"{o.summary.unchanged} reused lines."

namespace Action

/-- Compare files with the archive, one after the other. -/
def classifyAll (modName language : String) : List SourceFile → Action (List FilePlan)
  | [] => return []
  | file :: r => do
    let history ← archivedEntries modName file.filename language
    let plans ← classifyAll modName language r
    return classify file history :: plans

/-- Compare source files with the archive. -/
def plan (modName : String) (files : List SourceFile) (language : String) : Action Plan := do
  let plan : Plan := ⟨modName, language, ← classifyAll modName language files⟩
  let s := plan.summary
  report (.planned modName language s.total s.new s.changed s.unchanged)
  return plan

/-- The answers of a translator to a plan. It is asked only if something is dirty. -/
def translate (plan : Plan) (translator : Translator) : Action FileResults :=
  if plan.isUpToDate then pure ∅
  else do
    report (.translating plan.language plan.requests)
    match translator plan.language plan.requests with
    | .answers results => return results
    | .failed text => failWith (.translator text)
    | .crashed => fail .crash

/-- Archive a merged set as a snapshot of its mod. -/
def archiveMerged (merged : MergedSet) (remoteId : Option String) :
    Action (RowId × ArchiveReport) := do
  let modId ← ensureNamedMod merged.modName remoteId
  let snapshot ← snapshotChecked modId merged.sourceFiles
  let r ← archiveAligned snapshot.versionId merged.alignedRenderings merged.sourceFiles
    merged.language
  return (snapshot.versionId, r)

/-- Update a mod from its source files. -/
def update (modName : String) (remoteId : Option String) (files : List SourceFile)
    (language : String) (translator : Translator) : Action UpdateOutcome :=
  if files.isEmpty then failWith (.input .noSourceFiles)
  else do
    let plan ← plan modName files language
    -- Nothing is written before the translator has answered.
    let results ← translate plan translator
    let merged := plan.merge results
    let (versionId, archive) ← archiveMerged merged remoteId
    let outcome : UpdateOutcome := ⟨plan.summary, versionId, archive, merged.files, merged.missing⟩
    report (.updated versionId outcome.description)
    return outcome

end Action

end LocalizationMemory
