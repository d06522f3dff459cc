import LocalizationMemory.Archive.Versions

/-!
# Finding the entry that a key means

A lookup is answered in two stages. The database first picks rows by a condition
on the start of the key that it can check itself, and puts rows of the preferred
file first, then rows of other names, then rows without a file, each by their ids.
Of these the first whose key meets the pattern in full is the answer. A key is
resolved by the first strategy whose lookup has an answer.

## Main definitions

* `KeyPattern.admits` — the condition the database checks
* `Archive.candidates` — the rows it picks, in order
* `Archive.firstMatch?` — the answer to a lookup
* `Archive.resolve?` — the entry a key means, and the strategy that found it
* `Archive.lookupsFor` — the lookups that are made to find it

## Main results

* `Action.run_resolve` — what resolving a key leaves
-/

namespace LocalizationMemory

/-- The characters before the first zero character, at which the database stops counting. -/
def beforeZero (cs : List Char) : List Char := cs.takeWhile (·.toNat ≠ 0)

/-- The condition on a stored key that the database checks: for revisions of a
base, that the key begins with the base and a colon. -/
def KeyPattern.admits : KeyPattern → String → Bool
  | exact key, stored => stored == key
  | anyRevisionOf base, stored =>
    let start := (base ++ ":").toList
    -- A base with a zero character is longer than what is counted of it, so nothing is admitted.
    (beforeZero stored.toList).take (beforeZero start).length == start

/-- The entry found for a key. -/
structure Resolution where
  entryId : RowId
  strategy : Strategy
  deriving DecidableEq, Repr

namespace Archive

/-- A row comes before another: by the rank of its file, then by its id. -/
def preferredTo (scope : FileScope) (e f : EntryRow) : Bool :=
  decide (scope.rank e.file < scope.rank f.file ∨
    (scope.rank e.file = scope.rank f.file ∧ e.id ≤ f.id))

/-- The rows of a version that the database picks for a lookup, in order. -/
def candidates (a : Archive) (versionId : RowId) (lookup : Lookup) : List EntryRow :=
  sortBy (preferredTo lookup.file) <|
    (a.entriesOf versionId).filter fun e => lookup.key.admits e.key && lookup.file.accepts e.file

/-- The answer to a lookup among the entries of a version. -/
def firstMatch? (a : Archive) (versionId : RowId) (lookup : Lookup) : Option EntryRow :=
  (a.candidates versionId lookup).find? (lookup.key.accepts ·.key)

/-- The entry of a version that a key of a file means. -/
def resolve? (a : Archive) (versionId : RowId) (file rawKey : String) : Option Resolution :=
  Strategy.order.findSome? fun s =>
    ((s.lookup? file (Key.normalize rawKey)).bind (a.firstMatch? versionId)).map (⟨·.id, s⟩)

/-- The lookups that are made for a key of a file: those up to the first that is answered. -/
def lookupsFor (a : Archive) (versionId : RowId) (file rawKey : String) : List Lookup :=
  let all := Strategy.order.filterMap fun s => s.lookup? file (Key.normalize rawKey)
  let unanswered := all.takeWhile fun l => (a.firstMatch? versionId l).isNone
  all.take (unanswered.length + 1)

end Archive

/-- What is reported on resolving a key. -/
def resolutionEvents (versionId : RowId) (file rawKey : String) : Option Resolution → List Event
  | none => [.keyNotFound versionId file (Key.normalize rawKey)]
  | some r =>
    if r.strategy = .exact then [] else [.foundByFallback (Key.normalize rawKey) file r.strategy]

namespace Action

/-- The answer to a lookup among the entries of a version. -/
def findEntry (versionId : RowId) (lookup : Lookup) : Action (Option EntryRow) :=
  readFilesBy (.ofLookup lookup) (fun _ => [.ofLookup lookup]) .sourceEntries
    (·.firstMatch? versionId lookup)

/-- The entry of a version that a key of a file means. -/
def resolve (versionId : RowId) (file rawKey : String) : Action (Option Resolution) := do
  let r ← readFilesBy (.lookup false true false)
    (fun a => (a.lookupsFor versionId file rawKey).map .ofLookup) .sourceEntries
    (·.resolve? versionId file rawKey)
  reportAll (resolutionEvents versionId file rawKey r)
  return r

/-- Among entries with files a key is always resolved, to an entry or to none. -/
theorem run_resolve {a : Archive} (h : a.layout.hasFilePaths = true) (versionId : RowId)
    (file rawKey : String) (access : Access) :
    resolve versionId file rawKey access a =
      ⟨.ok (a.resolve? versionId file rawKey), a,
        resolutionEvents versionId file rawKey (a.resolve? versionId file rawKey),
        ⟨some .success, (a.lookupsFor versionId file rawKey).map .ofLookup⟩⟩ := by
  simp [resolve, bind, andThen, readFilesBy, h, reportAll, pure, done, Trace.andThen]

end Action

end LocalizationMemory
