import LocalizationMemory.Archive.Mods
import LocalizationMemory.Archive.Versions

/-!
# Calls that race

A call that first looks up what it wants and writes only if that is not there takes two
steps, and others may write between them: the look-up takes no right to write. Any number
of such calls, each through a connection of its own, race on one archive when their steps
are taken in some order. Each step is taken with the clock reading and the right to write
that its connection has at that time.

## Main definitions

* `Attempt` — a call by its two steps
* `Attempt.atOnce` — both steps without a break
* `Attempt.snapshot`, `Attempt.ensureMod` — finding or storing a version or a mod as a
  call of two steps
* `Race` — an archive and how far the calls on it have come
* `Race.step`, `Race.run` — one step of a call, and steps in some order

## Main results

* `Attempt.atOnce_snapshot`, `Attempt.atOnce_ensureMod` — the call takes both steps
  without a break
-/

namespace LocalizationMemory

/-- A call by its two steps. -/
structure Attempt (α : Type) where
  lookUp : Action (Option α)
  /-- What is done if nothing was found. -/
  write : Action α

namespace Attempt

variable {α : Type}

/-- Both steps without a break. -/
def atOnce (call : Attempt α) : Action α := do
  match ← call.lookUp with
  | some x => return x
  | none => call.write

/-- Find the version of a list of files, and store it if there is none. -/
def snapshot (modId : RowId) (files : List SourceFile) : Attempt Snapshot where
  lookUp := do
    match ← Action.versionWithHash (snapshotHash files) with
    | some v =>
      Action.report (.versionExists (snapshotHash files) v.id)
      return some ⟨v.id, false, 0⟩
    | none => return none
  write := Action.commitVersion modId files

/-- Find the mod of a name, and make it if there is none. -/
def ensureMod (name : String) (remoteId : Option String) : Attempt RowId where
  lookUp := do
    match ← Action.modNamed name with
    | some m => return some m.id
    | none => return none
  write := Action.commitMod name remoteId

end Attempt

/-- How far a call has come. -/
inductive Progress (α : Type) where
  | waiting
  /-- The look-up found nothing. -/
  | missed
  /-- The last step was taken with this access. -/
  | ended (access : Access) (result : Except Failure α)

/-- An archive and how far the calls on it have come. -/
structure Race (ι α : Type) where
  archive : Archive
  progress : ι → Progress α

namespace Race

variable {ι α : Type} [DecidableEq ι]

/-- Calls on an archive of which none has begun. -/
def start (a : Archive) : Race ι α := ⟨a, fun _ => .waiting⟩

/-- A call has come so far, and leaves an archive. -/
def advance (r : Race ι α) (i : ι) (p : Progress α) (a : Archive) : Race ι α where
  archive := a
  progress j := if j = i then p else r.progress j

/-- The next step of a call. A call that has ended takes none. -/
def step (calls : ι → Attempt α) (r : Race ι α) (i : ι) (access : Access) : Race ι α :=
  match r.progress i with
  | .waiting =>
    let o := (calls i).lookUp access r.archive
    match o.result with
    | .ok (some x) => r.advance i (.ended access (.ok x)) o.archive
    | .ok none => r.advance i .missed o.archive
    | .error failure => r.advance i (.ended access (.error failure)) o.archive
  | .missed =>
    let o := (calls i).write access r.archive
    r.advance i (.ended access o.result) o.archive
  | .ended _ _ => r

/-- Steps of calls in some order, each with its access. -/
def run (calls : ι → Attempt α) : Race ι α → List (ι × Access) → Race ι α
  | r, [] => r
  | r, (i, access) :: rest => run calls (r.step calls i access) rest

end Race

/-- What reading a table leaves. -/
theorem Action.run_read {α : Type} (table : TableName) (f : Archive → α) (access : Access)
    (a : Archive) :
    read table f access a =
      if a.layout.hasTables then ⟨.ok (f a), a, [], .ended .success⟩
      else
        ⟨.error (.database (.noSuchTable table)), a, [], .ended (.failure (.noSuchTable table))⟩ := by
  unfold read inspect
  cases tables : a.layout.hasTables <;> simp [tables]

/-- What looking a hash up leaves. -/
theorem Action.run_versionWithHash (hash : String) (access : Access) (a : Archive) :
    versionWithHash hash access a =
      if a.layout.hasTables then ⟨.ok (a.versionByHash? hash), a, [], .ended .success⟩
      else
        ⟨.error (.database (.noSuchTable .sourceVersions)), a, [],
          .ended (.failure (.noSuchTable .sourceVersions))⟩ :=
  run_read .sourceVersions (·.versionByHash? hash) access a

/-- A snapshot takes both steps without a break. -/
theorem Attempt.atOnce_snapshot (modId : RowId) (files : List SourceFile) :
    (Attempt.snapshot modId files).atOnce = Action.snapshot modId files := by
  funext access a
  cases tables : a.layout.hasTables with
  | false =>
    simp [atOnce, snapshot, Action.snapshot, bind, Action.andThen, Action.run_versionWithHash,
      tables]
  | true =>
    cases found : a.versionByHash? (snapshotHash files) with
    | some v =>
      simp [atOnce, snapshot, Action.snapshot, bind, Action.andThen, Action.run_versionWithHash,
        tables, found, Action.report, pure, Action.done, Trace.andThen]
    | none =>
      simp [atOnce, snapshot, Action.snapshot, bind, Action.andThen, Action.run_versionWithHash,
        tables, found, pure, Action.done, Trace.andThen]

/-- Making sure of a mod takes both steps without a break. -/
theorem Attempt.atOnce_ensureMod (name : String) (remoteId : Option String) :
    (Attempt.ensureMod name remoteId).atOnce = Action.ensureMod name remoteId := by
  funext access a
  cases tables : a.layout.hasTables with
  | false =>
    simp [atOnce, ensureMod, Action.ensureMod, Action.modNamed, bind, Action.andThen,
      Action.run_read, tables]
  | true =>
    cases found : a.mod? name <;>
      simp [atOnce, ensureMod, Action.ensureMod, Action.modNamed, bind, Action.andThen,
        Action.run_read, tables, found, pure, Action.done, Trace.andThen]

end LocalizationMemory
