import LocalizationMemory.Archive.Basic
import LocalizationMemory.Archive.Trace
import LocalizationMemory.Event

/-!
# Actions on an archive

An action reads the clock and an archive and ends with a result or a failure, the
archive it leaves and the events it reported on its way. An action that fails
keeps what it committed before. There are two ways to change an archive: a *write*,
which takes place as a whole or not at all, and an *alteration*, which is a single
statement. Both need the right to write.

## Main definitions

* `Access` — the time, and what keeps an action from writing
* `Outcome` — what an action leaves
* `Action` — actions, with the operations of a monad
* `Action.read` — look at tables, which have to be there
* `Access.change` — change tables at the time that the clock tells
* `Action.write` — change the archive as a whole or not at all
* `Action.alter` — change the archive by one statement
* `Action.report` — report an event

## Main results

* `Action.run_bind_of_ok`, `Action.run_bind_of_error` — one action after another
* `Action.write_cases` — a write takes place as a whole or leaves the archive as it was
-/

namespace LocalizationMemory

/-- What stands in the way of a change. -/
inductive Obstacle where
  /-- Another connection holds the right to write. -/
  | held
  /-- The connection can only read. -/
  | readOnly
  deriving DecidableEq, Repr

/-- What an obstacle makes a change report. -/
def Obstacle.cause : Obstacle → DatabaseFault
  | held => .locked
  | readOnly => .readOnly

/-- What an action is given: the time, and what stands in the way of a change. -/
structure Access where
  now : Millis
  obstacle : Option Obstacle := none
  /-- The tables that are there are still to be noticed. -/
  overlooksTables : Bool := false
  /-- The queries that the connection keeps. -/
  kept : List Query := []
  deriving DecidableEq, Repr

/-- What an action leaves. -/
structure Outcome (α : Type) where
  result : Except Failure α
  archive : Archive
  events : List Event
  trace : Trace

/-- Actions on an archive. -/
def Action (α : Type) := Access → Archive → Outcome α

namespace Access

variable {α : Type}

/-- The latest time that the clock tells: the last millisecond of the year 262142. -/
def latestTime : Millis := 8210266876799999

/-- Nothing stands in the way of a change. -/
def permission (access : Access) : Except DatabaseFault Unit :=
  match access.obstacle with
  | none => .ok ()
  | some obstacle => .error obstacle.cause

/-- Change tables, of which `table` is the first that has to be there, at the time that
the clock tells. Beyond its latest time the clock crashes. -/
def change (access : Access) (table : TableName)
    (f : Millis → Archive → Except DatabaseFault (α × Archive)) (a : Archive) :
    Except Failure (α × Archive) :=
  if latestTime < access.now then .error .crashUnderLock
  else if a.layout.hasTables then
    -- Only the first row that is to be changed shows that a connection can only read.
    match access.permission with
    | .ok () => (f access.now a).mapError .database
    | .error cause => .error (.database cause)
  else .error (.database (.noSuchTable table))

end Access

namespace Action

variable {α β : Type}

/-- End with a result. -/
def done (x : α) : Action α := fun _ a => ⟨.ok x, a, [], {}⟩

/-- One action after another. The second does not take place if the first fails. -/
def andThen (first : Action α) (second : α → Action β) : Action β := fun access a =>
  let o := first access a
  match o.result with
  | .error failure => ⟨.error failure, o.archive, o.events, o.trace⟩
  | .ok x =>
    let o' := second x access o.archive
    ⟨o'.result, o'.archive, o.events ++ o'.events, o.trace.andThen o'.trace⟩

instance : Monad Action where
  pure := done
  bind := andThen

/-- End with a failure. -/
def fail (failure : Failure) : Action α := fun _ a => ⟨.error failure, a, [], {}⟩

/-- End with a fault. -/
def failWith (fault : Fault) : Action α := fail (.fault fault)

/-- Report an event. -/
def report (event : Event) : Action Unit := fun _ a => ⟨.ok (), a, [event], {}⟩

/-- Report events. -/
def reportAll (events : List Event) : Action Unit := fun _ a => ⟨.ok (), a, events, {}⟩

/-- End as a statement on the archive does that changes nothing. -/
def inspect (f : Archive → Except DatabaseFault α) : Action α := fun _ a =>
  match f a with
  | .ok x => ⟨.ok x, a, [], Trace.ended .success⟩
  | .error cause => ⟨.error (.database cause), a, [], Trace.ended (.failure cause)⟩

/-- Read tables of which `table` is the first that has to be there. -/
def read (table : TableName) (f : Archive → α) : Action α :=
  inspect fun a => if a.layout.hasTables then .ok (f a) else .error (.noSuchTable table)

/-- Read tables, the file of entries included. -/
def readFiles (table : TableName) (f : Archive → α) : Action α :=
  inspect fun a =>
    if a.layout.hasFilePaths then .ok (f a)
    else if a.layout.hasTables then .error (.noFilePath "file_path")
    else .error (.noSuchTable table)

/-- Read tables and the file of entries by queries that are kept, of which `first` is the
first to be made. -/
def readFilesBy (first : Query) (queries : Archive → List Query) (table : TableName)
    (f : Archive → α) : Action α := fun access a =>
  if a.layout.hasFilePaths then ⟨.ok (f a), a, [], ⟨some .success, queries a⟩⟩
  else
    let cause :=
      if !a.layout.hasTables then .noSuchTable table
      else if access.kept.contains first then .noSuchColumn first.fileColumn
      else .noFilePath first.fileColumn
    ⟨.error (.database cause), a, [], .ended (.failure cause)⟩

/-- Change the archive as a whole or not at all. The right to write is taken first,
so that nothing is tried while another connection holds it. A failure after that
takes all back, and what the connection says last is that this went well. -/
def write (f : Access → Archive → Except Failure (α × Archive)) : Action α := fun access a =>
  if access.obstacle = some .held then
    ⟨.error (.database .locked), a, [], Trace.ended (.failure .locked)⟩
  else
    match f access a with
    | .ok (x, a') => ⟨.ok x, a', [], Trace.ended .success⟩
    | .error failure => ⟨.error failure, a, [], Trace.ended .success⟩

/-- Change the archive by one statement, which has to be sound before it takes the
right to write. -/
def alter (sound : Archive → Except DatabaseFault Unit)
    (f : Archive → Except DatabaseFault (α × Archive)) : Action α := fun access a =>
  match sound a >>= fun () => access.permission >>= fun () => f a with
  | .ok (x, a') => ⟨.ok x, a', [], Trace.ended .success⟩
  | .error cause => ⟨.error (.database cause), a, [], Trace.ended (.failure cause)⟩

/-! ### What actions leave -/

@[simp] theorem run_pure (x : α) (access : Access) (a : Archive) :
    (pure x : Action α) access a = ⟨.ok x, a, [], {}⟩ := rfl

theorem run_bind_of_ok {first : Action α} {second : α → Action β} {access : Access}
    {a b : Archive} {x : α} {events : List Event} {trace : Trace}
    (h : first access a = ⟨.ok x, b, events, trace⟩) :
    (first >>= second) access a =
      ⟨(second x access b).result, (second x access b).archive,
        events ++ (second x access b).events, trace.andThen (second x access b).trace⟩ := by
  simp only [bind, andThen, h]

theorem run_bind_of_error {first : Action α} {second : α → Action β} {access : Access}
    {a b : Archive} {failure : Failure} {events : List Event} {trace : Trace}
    (h : first access a = ⟨.error failure, b, events, trace⟩) :
    (first >>= second) access a = ⟨.error failure, b, events, trace⟩ := by
  simp only [bind, andThen, h]

@[simp] theorem archive_inspect (f : Archive → Except DatabaseFault α) (access : Access)
    (a : Archive) : (inspect f access a).archive = a := by
  unfold inspect
  split <;> rfl

/-- A write takes place as a whole or leaves the archive as it was. -/
theorem write_cases (f : Access → Archive → Except Failure (α × Archive)) (access : Access)
    (a : Archive) :
    (∃ x a', access.obstacle ≠ some .held ∧ f access a = .ok (x, a') ∧
        write f access a = ⟨.ok x, a', [], Trace.ended .success⟩) ∨
      ∃ failure trace, write f access a = ⟨.error failure, a, [], trace⟩ := by
  by_cases ho : access.obstacle = some .held
  · exact .inr ⟨.database .locked, Trace.ended (.failure .locked), by simp [write, ho]⟩
  · cases hf : f access a with
    | ok p => exact .inl ⟨p.1, p.2, ho, rfl, by simp [write, ho, hf]⟩
    | error failure => exact .inr ⟨failure, Trace.ended .success, by simp [write, ho, hf]⟩

end Action

end LocalizationMemory
