import LocalizationMemory.Comparison

/-!
# Merging renderings into a plan

A translator answers the dirty entries of each file in their order. Merging puts
the answers back in place, between the unchanged entries with the renderings
they had. Where answers are missing, the entry stays without a rendering and
is counted; answers beyond the last dirty entry are ignored.

## Main definitions

* `MergedEntry`, `MergedFile`, `MergedSet` — entries, files and sets after merging
* `MergedEntry.outputText` — the rendering, or the source text where there is none
* `Plan.merge` — the merge
* `MergedSet.sourceFiles` — the merged entries as source files again
* `MergedSet.alignedRenderings` — the output texts by file and position

## Main results

* `map_source_fill` — merging keeps the source texts
-/

namespace LocalizationMemory

/-- An entry after merging. -/
structure MergedEntry where
  key : String
  source : String
  lineNum : Option UInt32
  rendering : Option String
  deriving DecidableEq, Repr

/-- What is written for an entry: its rendering, or its source text if it has none. -/
def MergedEntry.outputText (e : MergedEntry) : String := e.rendering.getD e.source

/-- A file after merging. -/
structure MergedFile where
  filename : String
  entries : List MergedEntry
  deriving DecidableEq, Repr

/-- What is written for a file. -/
def MergedFile.outputTexts (file : MergedFile) : List String := file.entries.map (·.outputText)

/-- The entries of a file as a source file. -/
def MergedFile.toSourceFile (file : MergedFile) : SourceFile :=
  { filename := file.filename
    keys := file.entries.map fun e => ⟨e.key, e.lineNum⟩
    texts := file.entries.map (·.source) }

/-- A set of merged files, with the number of dirty entries left unanswered. -/
structure MergedSet where
  modName : String
  language : String
  files : List MergedFile
  missing : Nat
  deriving DecidableEq, Repr

namespace MergedSet

/-- The merged entries as source files. -/
def sourceFiles (merged : MergedSet) : List SourceFile := merged.files.map (·.toSourceFile)

/-- The output texts by file and position. Of two files of one name the last counts. -/
def alignedRenderings (merged : MergedSet) : AlignedResults :=
  .ofList <| merged.files.map fun f => (f.filename, f.outputTexts.map some)

end MergedSet

/-- A planned entry with a rendering in place of its own. -/
def PlannedEntry.merged (e : PlannedEntry) (rendering : Option String) : MergedEntry :=
  ⟨e.key, e.source, e.lineNum, rendering⟩

/-- Give the answers to the dirty entries, one each, as long as there are any. -/
def fill : List PlannedEntry → List String → List MergedEntry
  | [], _ => []
  | e :: r, answers =>
    -- Only a dirty entry uses up an answer.
    if e.status.isDirty then e.merged answers.head? :: fill r answers.tail
    else e.merged e.rendering :: fill r answers

/-- The answers for a file. -/
def FileResults.answers (results : FileResults) (filename : String) : List String :=
  (results.get? filename).getD []

/-- The dirty entries of a file that its answers do not reach. -/
def FilePlan.missing (plan : FilePlan) (results : FileResults) : Nat :=
  plan.dirtyTexts.length - (FileResults.answers results plan.filename).length

/-- Put the answers in place. -/
def FilePlan.merge (plan : FilePlan) (results : FileResults) : MergedFile :=
  ⟨plan.filename, fill plan.entries (FileResults.answers results plan.filename)⟩

/-- Put the answers of every file in place. -/
def Plan.merge (plan : Plan) (results : FileResults) : MergedSet :=
  { modName := plan.modName
    language := plan.language
    files := plan.files.map (·.merge results)
    missing := (plan.files.map (·.missing results)).foldr (· + ·) 0 }

/-- Merging keeps the source texts. -/
theorem map_source_fill (entries : List PlannedEntry) (answers : List String) :
    (fill entries answers).map (·.source) = entries.map (·.source) := by
  induction entries generalizing answers with
  | nil => rfl
  | cons e r ih =>
    rw [fill]
    split <;> simp [ih, PlannedEntry.merged]

end LocalizationMemory
