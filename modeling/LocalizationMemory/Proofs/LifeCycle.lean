import LocalizationMemory.Proofs.Calls

/-!
# The life of a handle

A handle starts without a connection, opens one when a call needs the database, and keeps it
until it is closed or a call crashes under its lock. What was done with it decides what it
does next: it is ready if it reported that it connected, and was neither closed nor crashed
under the lock since. Between two calls anything may become of the disk.

## Main definitions

* `Deed` — a call with its reply; it can open the connection, close it, or crash
* `Store.History` — what was done with a store since it was made, the latest first
* `Opened` — the connection was opened, and nothing ended it since
* `Disk.Keeps`, `Disk.Prepares` — every archive has the rows that it had, though tables that are
  missing may have been made
* `StoreReply.Refuses`, `Store.Tries` — a call is refused, or has to connect first
* `Store.Reacts` — what comes of using the connection
* `Store.Step`, `Store.Followed` — what one call leaves, and what a history leaves

## Main results

* `Store.step_call` — every call is a step
* `Store.History.followed` — what was done decides in which state a handle is
* `Store.History.lifeCycle` — what a handle answers after any history
-/

namespace LocalizationMemory

/-- A call with the reply to it. -/
structure Deed where
  {answer : Type}
  call : Call answer
  reply : StoreReply answer

namespace Deed

/-- A connection was opened: that is reported. -/
def Opens (deed : Deed) : Prop := ∃ path, .connected path ∈ deed.reply.events

/-- The store was closed. -/
def Closes (deed : Deed) : Prop := deed.call.IsClose ∧ deed.reply.result.isOk = true

/-- The call crashed while it held the lock. -/
def Crashes (deed : Deed) : Prop := deed.reply.result = .error .crashUnderLock

end Deed

/-- The connection was opened, and since then the store was not closed and nothing crashed under
its lock. The latest deed comes first. -/
def Opened (deeds : List Deed) : Prop :=
  ∃ since opening before, deeds = since ++ opening :: before ∧ opening.Opens ∧
    ∀ deed ∈ since ++ [opening], ¬ deed.Closes ∧ ¬ deed.Crashes

/-- What was done with a store of some settings since it was made, the latest first. Every call
finds the disk in a state of its own. -/
inductive Store.History (settings : Settings) : List Deed → Store → Prop
  | new : History settings [] { settings }
  | call {deeds : List Deed} {s : Store} (earlier : History settings deeds s) {α : Type}
      (call : Call α) (now : Millis) (d : Disk) :
      History settings (⟨call, s.call now call d⟩ :: deeds) (s.call now call d).store

/-- Every archive on a disk is there afterwards, with the same rows. -/
def Disk.Keeps (d d' : Disk) : Prop :=
  ∀ id stored, d.stored? id = some stored →
    ∃ after, d'.stored? id = some after ∧ after.archive = stored.archive

/-- Every archive on a disk is there afterwards, as it was or with the tables of today made. -/
def Disk.Prepares (d d' : Disk) : Prop :=
  ∀ id stored, d.stored? id = some stored →
    ∃ after, d'.stored? id = some after ∧
      (after.archive = stored.archive ∨ after.archive = stored.archive.prepare)

/-- A call was refused with the fault of a code. Nothing was changed, and no connection opened. -/
structure StoreReply.Refuses {α : Type} (r : StoreReply α) (code : String) (s : Store)
    (d : Disk) : Prop where
  fault : ∃ fault, r.result = .error (.fault fault) ∧ fault.code = code
  store : r.store = s
  disk : r.disk = d
  unopened : ∀ path, .connected path ∉ r.events

/-- A call has to connect first. -/
structure Store.Tries {α : Type} (s : Store) (now : Millis) (call : Call α) (d : Disk) :
    Prop where
  /-- If that fails the call reports it. The store is as it was, unless connecting crashed, and
  so are the rows of all archives. -/
  failed : ∀ failure, (s.connect now d).result = .error failure →
    (s.call now call d).result = .error failure ∧ (s.call now call d).store.isReady = false ∧
      (failure ≠ .crashUnderLock → (s.call now call d).store = s) ∧
      (d.Counted → d.Keeps (s.call now call d).disk)
  /-- Else the call does what it does on a store that has the connection. -/
  connected : ∀ c, (s.connect now d).result = .ok c →
    let usual := ({ s with state := .ready c } : Store).call now call (s.connect now d).disk
    (s.call now call d).result = usual.result ∧ (s.call now call d).store = usual.store ∧
      (s.call now call d).disk = usual.disk

variable {α : Type} {now : Millis} {d d' : Disk} {c : Connection} {s : Store}

/-- What is done to files without moving or losing an archive keeps the rows of all. -/
theorem Disk.Changes.keeps (changes : Disk.Changes (· = ·) (fun _ => False) d d')
    (counted : d.Counted) : d.Keeps d' := by
  intro id stored before
  obtain ⟨after, there, same⟩ :=
    changes.follows (fun _ => rfl) (fun _ _ _ => Eq.trans) counted not_false before
  exact ⟨after, there, same.symm⟩

/-- Connecting makes the tables that are missing, and keeps what is there. -/
theorem Disk.prepares_connect (s : Store) (now : Millis) (counted : d.Counted) :
    d.Prepares (s.connect now d).disk ∧ (s.connect now d).disk.Counted := by
  have changes : Disk.Changes (fun a b => b = a ∨ b = a.prepare) (fun _ => False) d
      (s.connect now d).disk :=
    Disk.changes_connect (fun _ => .inl rfl) fun _ _ => .inr rfl
  refine ⟨fun id stored before => changes.follows (fun _ => .inl rfl) ?_ counted not_false before,
    changes.counted counted⟩
  rintro a b c (rfl | rfl) (rfl | rfl)
  · exact .inl rfl
  · exact .inr rfl
  · exact .inr rfl
  · exact .inr a.prepare_prepare

/-! ### What a call does to a handle -/

namespace Store

/-- What connecting reports: that it connected if it did, and nothing of a translator. -/
theorem events_connect (s : Store) (now : Millis) (d : Disk) :
    ((∃ path, .connected path ∈ (s.connect now d).events) ↔
        ∃ c, (s.connect now d).result = .ok c) ∧
      (∀ language requests, .translating language requests ∉ (s.connect now d).events) ∧
      (s.connect now d).result ≠ .error .crash := by
  rw [connect]
  dsimp only
  split
  · exact ⟨by simp, fun _ _ => List.not_mem_nil, by simp⟩
  · split
    · exact ⟨by simp, fun _ _ => List.not_mem_nil, by simp⟩
    · next c left _ =>
      split
      · exact ⟨by simp, fun _ _ => List.not_mem_nil, by simp⟩
      · have prepared := Connection.yields_run c now Action.prepare left
        have goesOn := prepared.goesOn Connection.quiet_prepare
        have said := prepared.said Connection.quiet_prepare.events
        split
        · exact ⟨by simp, fun _ _ => by simp, by simp⟩
        · next failure _ failed =>
          rw [failed] at goesOn
          exact ⟨by simp, fun _ _ => by simp, by simpa using goesOn⟩
        · refine ⟨by simp, fun language requests told => ?_, by simp⟩
          have told : .translating language requests ∈ (c.run now Action.prepare left).events := by
            simpa using told
          exact said _ told

/-- What comes of using the connection. -/
inductive Reacts (s : Store) (now : Millis) (use : Connection → Disk → ConnectionReply α)
    (d : Disk) : StoreReply α → Prop
  | poisoned (unusable : s.poisoned = true) : Reacts s now use d (s.refuse d .poisoned)
  | closed (sane : s.poisoned = false) (closed : s.state = .closed) :
      Reacts s now use d (s.refuse d .storeClosed)
  | failed {failure : Failure} (sane : s.poisoned = false) (blank : s.state = .notReady)
      (failed : (s.connect now d).result = .error failure) :
      Reacts s now use d ⟨.error failure, { s with poisoned := failure = .crashUnderLock },
        (s.connect now d).disk, (s.connect now d).events⟩
  | opened {c : Connection} (sane : s.poisoned = false) (blank : s.state = .notReady)
      (connected : (s.connect now d).result = .ok c) :
      Reacts s now use d { s.useConnection c use (s.connect now d).disk with
        events := (s.connect now d).events ++
          (s.useConnection c use (s.connect now d).disk).events }
  | used {c : Connection} (sane : s.poisoned = false) (ready : s.state = .ready c) :
      Reacts s now use d (s.useConnection c use d)

theorem reacts_withConnection (s : Store) (now : Millis)
    (use : Connection → Disk → ConnectionReply α) (d : Disk) :
    s.Reacts now use d (s.withConnection now use d) := by
  rw [withConnection]
  split
  · next unusable => exact .poisoned unusable
  · next sane =>
    have sane : s.poisoned = false := by simpa using sane
    split
    · next closed => exact .closed sane closed
    · next c ready => exact .used sane ready
    · next blank =>
      dsimp only
      split
      · next failure failed => exact .failed sane blank failed
      · next c connected => exact .opened sane blank connected

theorem isReady_iff : s.isReady = true ↔ s.poisoned = false ∧ ∃ c, s.state = .ready c := by
  rw [isReady, Bool.and_eq_true, Bool.not_eq_true']
  cases s.state <;> simp

theorem not_isReady_of_blank (blank : s.state = .notReady) : ¬ s.isReady = true := by
  intro ready
  obtain ⟨-, c, ready⟩ := isReady_iff.mp ready
  cases blank.symm.trans ready

/-- A store that is not unusable can be closed. -/
theorem close_of_sane (sane : s.poisoned = false) (d : Disk) :
    ∃ disk events, s.close d = ⟨.ok (), { s with state := .closed }, disk, events⟩ ∧
      ∀ path, .connected path ∉ events := by
  simp only [close, sane, Bool.false_eq_true, if_false]
  split
  · exact ⟨_, _, rfl, fun _ => by simp⟩
  · exact ⟨_, _, rfl, fun _ => by simp⟩

/-- One call with its reply is a step in the life of a handle. -/
structure Step (s : Store) (deed : Deed) : Prop where
  poisoned : deed.reply.store.poisoned = true ↔ deed.Crashes ∨ s.poisoned = true
  closed : deed.reply.store.state = .closed ↔ deed.Closes ∨ s.state = .closed
  isReady : deed.reply.store.isReady = true ↔
    (deed.Opens ∨ s.isReady = true) ∧ ¬ deed.Closes ∧ ¬ deed.Crashes
  /-- What is closed does not become unusable, nor the other way round. -/
  apart : (s.state = .closed → s.poisoned = false) →
    deed.reply.store.state = .closed → deed.reply.store.poisoned = false
  sound : s.Sound → deed.reply.store.Sound

/-- A call that leaves the store as it is, opens nothing and closes nothing is a step. -/
theorem step_of_same {call : Call α} {r : StoreReply α} (same : r.store = s)
    (unopened : ∀ path, .connected path ∉ r.events) (sane : r.result ≠ .error .crashUnderLock)
    (closing : call.IsClose → r.result.isOk = true → s.state = .closed) : s.Step ⟨call, r⟩ := by
  have opens : ¬ (Deed.mk call r).Opens := fun ⟨path, told⟩ => unopened path told
  have crashes : ¬ (Deed.mk call r).Crashes := sane
  have closes (h : (Deed.mk call r).Closes) : s.state = .closed := closing h.1 h.2
  constructor
  · simp [same, crashes]
  · rw [same]
    exact ⟨.inr, fun h => h.elim closes id⟩
  · simp only [same, opens, crashes, false_or, not_false_eq_true, and_true]
    refine ⟨fun ready => ⟨ready, fun h => ?_⟩, And.left⟩
    obtain ⟨-, c, ready⟩ := isReady_iff.mp ready
    cases ready.symm.trans (closes h)
  · rw [same]
    exact id
  · rw [same]
    exact id

theorem poisoned_useConnection {use : Connection → Disk → ConnectionReply α} :
    (s.useConnection c use d).store.poisoned = true ↔
      (use c d).result = .error .crashUnderLock := by
  simp only [useConnection]
  split
  · next crashed => simp [crashed]
  · next other => simpa using other

/-- A call that comes to use a connection is a step, if the store had it or reports it. -/
theorem step_useConnection {call : Call α} {told : List Event}
    {use : Connection → Disk → ConnectionReply α} (sane : s.poisoned = false)
    (unclosed : s.state ≠ .closed) (plain : Connection.Plain use)
    (opened : (∃ path, .connected path ∈ told) ∨ s.isReady = true)
    (sound : s.Sound → c.handle.Sound) (stays : ¬ call.IsClose) :
    s.Step ⟨call, { s.useConnection c use d with
      events := told ++ (s.useConnection c use d).events }⟩ := by
  -- The deed is named, for its reply would be unfolded wherever the store is looked at.
  generalize hdeed : Deed.mk call { s.useConnection c use d with
    events := told ++ (s.useConnection c use d).events } = deed
  have left : deed.reply.store = (s.useConnection c use d).store := by rw [← hdeed]
  have state : deed.reply.store.state = .ready (use c d).connection := by
    rw [left]
    rfl
  have poisoned : deed.reply.store.poisoned = true ↔ deed.Crashes := by
    rw [left, ← hdeed]
    exact poisoned_useConnection
  have opens : deed.Opens ∨ s.isReady = true := by
    rw [← hdeed]
    exact opened.imp_left fun ⟨path, said⟩ => ⟨path, List.mem_append_left _ said⟩
  have closes : ¬ deed.Closes := by
    rw [← hdeed]
    exact fun h => stays h.1
  constructor
  · simp [poisoned, sane]
  · simp [state, closes, unclosed]
  · have ready : deed.reply.store.isReady = true ↔ ¬ deed.Crashes := by
      rw [isReady_iff, state, ← poisoned]
      simp
    exact ⟨fun h => ⟨opens, closes, ready.mp h⟩, fun h => ready.mpr h.2.2⟩
  · exact fun _ closed => nomatch state.symm.trans closed
  · intro before known ready
    obtain rfl := StoreState.ready.inj (state.symm.trans ready)
    rw [plain.handle]
    exact sound before

theorem step_withConnection {call : Call α} {before : List Event}
    {use : Connection → Disk → ConnectionReply α} (uses : call.Uses s now before use)
    (stays : ¬ call.IsClose) (d : Disk) : s.Step ⟨call, s.call now call d⟩ := by
  have reacts := s.reacts_withConnection now use d
  rw [uses.call_eq s rfl d]
  generalize s.withConnection now use d = r at reacts
  have unopened := uses.before
  cases reacts with
  | poisoned unusable =>
    exact step_of_same rfl (by simpa [refuse] using unopened) nofun fun h => absurd h stays
  | closed sane closed =>
    exact step_of_same rfl (by simpa [refuse] using unopened) nofun fun h => absurd h stays
  | @failed failure sane blank failed =>
    -- Connecting failed, so it was not reported either; the state stays what it was.
    obtain ⟨tells, -, -⟩ := s.events_connect now d
    have opens : ¬ ∃ path, .connected path ∈ before ++ (s.connect now d).events := by
      rintro ⟨path, told⟩
      obtain told | told := List.mem_append.mp told
      · exact unopened path told
      · obtain ⟨c, connected⟩ := tells.mp ⟨path, told⟩
        cases failed.symm.trans connected
    have closes (r : StoreReply α) : ¬ (Deed.mk call r).Closes := fun h => stays h.1
    constructor
    · simp [Deed.Crashes, sane]
    · simp [closes, blank]
    · exact ⟨fun ready => absurd ready (not_isReady_of_blank blank), fun h =>
        h.1.elim (absurd · opens) (absurd · (not_isReady_of_blank blank))⟩
    · exact fun _ closed => nomatch blank.symm.trans closed
    · exact id
  | opened sane blank connected =>
    obtain ⟨tells, -, -⟩ := s.events_connect now d
    obtain ⟨path, told⟩ := tells.mpr ⟨_, connected⟩
    rw [← List.append_assoc]
    refine step_useConnection sane (by simp [blank]) uses.plain
      (.inl ⟨path, List.mem_append_right _ told⟩) (fun _ => sound_connect connected) stays
  | used sane ready =>
    exact step_useConnection sane (by simp [ready]) uses.plain
      (.inr (isReady_iff.mpr ⟨sane, _, ready⟩)) (fun sound => sound _ ready) stays

/-- Closing a store is a step. -/
theorem step_close (s : Store) (d : Disk) : s.Step ⟨.ask .close, s.close d⟩ := by
  cases unusable : s.poisoned with
  | true =>
    have refused : s.close d = s.refuse d .poisoned := if_pos unusable
    rw [refused]
    exact step_of_same rfl (fun _ => nofun) nofun fun _ => nofun
  | false =>
    obtain ⟨disk, events, closed, told⟩ := close_of_sane unusable d
    rw [closed]
    have closes : Deed.Closes
        ⟨.ask .close, ⟨.ok (), { s with state := .closed }, disk, events⟩⟩ := ⟨trivial, rfl⟩
    constructor
    · simp [Deed.Crashes, unusable]
    · exact ⟨fun _ => .inl closes, fun _ => rfl⟩
    · rw [isReady_iff]
      exact ⟨fun ⟨_, _, ready⟩ => (nomatch ready), fun h => absurd closes h.2.1⟩
    · exact fun _ _ => unusable
    · exact fun _ _ => nofun

/-- Every call is a step. -/
theorem step_call (s : Store) (now : Millis) (call : Call α) (d : Disk) :
    s.Step ⟨call, s.call now call d⟩ := by
  by_cases needs : call.NeedsDatabase
  · obtain ⟨before, use, uses⟩ := Call.exists_uses needs s now
    exact step_withConnection uses needs.not_isClose d
  · by_cases closes : call.IsClose
    · cases call with
      | ask request =>
        cases request with
        | close => exact s.step_close d
        | _ => exact closes.elim
      | exportTo path => exact closes.elim
      | importFrom path => exact closes.elim
    · obtain ⟨same, -, unopened, sane⟩ := Call.idle needs closes
      exact step_of_same same unopened sane fun h => absurd h closes

/-- What a history leaves. -/
structure Followed (deeds : List Deed) (s : Store) : Prop where
  poisoned : s.poisoned = true ↔ ∃ deed ∈ deeds, deed.Crashes
  closed : s.state = .closed ↔ ∃ deed ∈ deeds, deed.Closes
  isReady : s.isReady = true ↔ Opened deeds
  apart : s.state = .closed → s.poisoned = false
  sound : s.Sound

end Store

/-- A connection is open after a deed if it was opened by then, and the deed did not end it. -/
theorem opened_cons_iff {deed : Deed} {deeds : List Deed} :
    Opened (deed :: deeds) ↔ (deed.Opens ∨ Opened deeds) ∧ ¬ deed.Closes ∧ ¬ deed.Crashes := by
  constructor
  · rintro ⟨since, opening, before, same, opens, spared⟩
    -- The latest deed is the one that opened the connection, or one since.
    cases since with
    | nil =>
      obtain ⟨rfl, rfl⟩ := List.cons.inj same
      exact ⟨.inl opens, spared deed (by simp)⟩
    | cons latest since =>
      obtain ⟨rfl, rfl⟩ := List.cons.inj same
      exact ⟨.inr ⟨since, opening, before, rfl, opens, fun deed h => spared deed (by simp_all)⟩,
        spared deed (by simp)⟩
  · rintro ⟨opens | ⟨since, opening, before, rfl, opens, spared⟩, kept⟩
    · exact ⟨[], deed, deeds, rfl, opens, by simpa using kept⟩
    · refine ⟨deed :: since, opening, before, rfl, opens, fun other h => ?_⟩
      obtain rfl | h := List.mem_cons.mp h
      · exact kept
      · exact spared other h

namespace Store

variable {settings : Settings} {deeds : List Deed}

/-- What was done decides in which state the handle is. -/
theorem History.followed (history : Store.History settings deeds s) :
    Followed deeds s := by
  -- Every call is a step, and what a step tells of the latest deed is added to the earlier ones.
  induction history with
  | new =>
    constructor
    · simp
    · simp
    · simp [isReady, Opened]
    · exact fun closed => nomatch closed
    · exact fun _ ready => nomatch ready
  | @call deeds s earlier _ call now d ih =>
    have step := s.step_call now call d
    constructor
    · rw [step.poisoned, ih.poisoned, List.exists_mem_cons_iff]
    · rw [step.closed, ih.closed, List.exists_mem_cons_iff]
    · rw [step.isReady, ih.isReady, opened_cons_iff]
    · exact step.apart ih.apart
    · exact step.sound ih.sound

/-- Without a deed that opened, closed or crashed the handle is as it was made. -/
theorem Followed.untouched (followed : Followed deeds s)
    (untouched : ∀ deed ∈ deeds, ¬ deed.Opens ∧ ¬ deed.Closes ∧ ¬ deed.Crashes) :
    s.poisoned = false ∧ s.state = .notReady := by
  have sane : s.poisoned = false := by
    refine Bool.eq_false_iff.mpr fun unusable => ?_
    obtain ⟨deed, h, crashes⟩ := followed.poisoned.mp unusable
    exact (untouched deed h).2.2 crashes
  refine ⟨sane, ?_⟩
  -- A connection would have been opened by a deed, and a closed handle closed by one.
  cases state : s.state with
  | notReady => rfl
  | ready c =>
    obtain ⟨since, opening, before, rfl, opens, -⟩ :=
      followed.isReady.mp (isReady_iff.mpr ⟨sane, c, state⟩)
    exact absurd opens (untouched opening (by simp)).1
  | closed =>
    obtain ⟨deed, h, closes⟩ := followed.closed.mp state
    exact absurd closes (untouched deed h).2.1

/-! ### Connecting -/

theorem tries_of_uses {call : Call α} {before : List Event}
    {use : Connection → Disk → ConnectionReply α} (uses : call.Uses s now before use)
    (sane : s.poisoned = false) (blank : s.state = .notReady) (d : Disk) : s.Tries now call d where
  failed failure failed := by
    have came : s.withConnection now use d = ⟨.error failure,
        { s with poisoned := failure = .crashUnderLock }, (s.connect now d).disk,
        (s.connect now d).events⟩ := by
      simp [withConnection, sane, blank, failed]
    rw [uses.call_eq s rfl d, came]
    refine ⟨rfl, ?_, fun survived => ?_, fun counted => ?_⟩
    · simp [isReady, blank]
    · simp [survived, ← sane]
    · -- Tables are made only by connecting with success.
      refine Disk.Changes.keeps (Disk.changes_connect (fun _ => rfl) fun connected => ?_) counted
      rw [failed] at connected
      cases connected
  connected c connected := by
    rw [uses.call_eq s rfl d, uses.call_eq { s with state := .ready c } rfl]
    simp [withConnection, sane, blank, connected, useConnection]

/-! ### Crashes outside the lock -/

section Crash

variable {act : Action α} {language : String} {translator : Translator}

/-- An action that asks a translator crashes outside the lock exactly when the translator crashes
on requests that are reported. -/
theorem crashes_perform_iff (asks : act.Asks language translator) (speaks : act.Speaks) :
    (s.perform now act d).result = .error .crash ↔
      ∃ requests, .translating language requests ∈ (s.perform now act d).events ∧
        translator language requests = .crashed := by
  obtain ⟨-, quiet, goesOn⟩ := s.events_connect now d
  have used (c : Connection) (d : Disk) :=
    (Connection.yields_run c now act d).crashes_iff asks speaks
  have reacts := s.reacts_withConnection now (·.run now act) d
  rw [perform]
  generalize s.withConnection now _ d = r at reacts
  cases reacts with
  | poisoned | closed => simp [refuse]
  | @failed failure _ _ failed =>
    -- Nobody was asked yet, and connecting does not crash outside the lock.
    rw [failed] at goesOn
    have survived : failure ≠ .crash := by simpa using goesOn
    simp [survived, quiet]
  | @opened c =>
    simp only [useConnection, List.mem_append, quiet, false_or]
    exact used c _
  | @used c => exact used c d

/-- A connection that ran an action is there after a crash outside the lock, and all rows are as
they were if the action wrote nothing before. -/
theorem left_of_crashes_useConnection (fit : c.handle.Sound)
    (unwritten : ∀ access a, (act access a).result = .error .crash → (act access a).archive = a)
    (crashed : (s.useConnection c (·.run now act) d).result = .error .crash) :
    (s.useConnection c (·.run now act) d).store.isReady = true ∧
      (d.Counted → d.Keeps (s.useConnection c (·.run now act) d).disk) := by
  constructor
  · refine isReady_iff.mpr ⟨Bool.eq_false_iff.mpr fun unusable => ?_, _, rfl⟩
    cases crashed.symm.trans (poisoned_useConnection.mp unusable)
  · refine Disk.Changes.keeps (Disk.changes_run_of_result (fun access a _ same => ?_) (.inl fit))
    exact (unwritten access a (same.trans crashed)).symm

theorem left_of_crashes_perform (sound : s.Sound)
    (unwritten : ∀ access a, (act access a).result = .error .crash → (act access a).archive = a)
    (crashed : (s.perform now act d).result = .error .crash) :
    (s.perform now act d).store.isReady = true ∧
      (d.Counted → ∃ c d', s.Connects now d c d' ∧ d.Prepares d' ∧
        d'.Keeps (s.perform now act d).disk) := by
  have reacts := s.reacts_withConnection now (·.run now act) d
  rw [perform] at crashed ⊢
  generalize s.withConnection now _ d = r at reacts crashed ⊢
  cases reacts with
  | poisoned | closed => cases crashed
  | failed _ _ failed =>
    obtain ⟨-, -, goesOn⟩ := s.events_connect now d
    rw [failed] at goesOn
    exact absurd (by simpa using crashed) goesOn
  | @opened c sane blank connected =>
    dsimp only at crashed ⊢
    obtain ⟨ready, keeps⟩ :=
      left_of_crashes_useConnection (sound_connect connected) unwritten crashed
    refine ⟨ready, fun counted => ?_⟩
    obtain ⟨prepares, counted⟩ := Disk.prepares_connect s now counted
    exact ⟨c, (s.connect now d).disk, ⟨sane, by simp [blank, connected]⟩, prepares, keeps counted⟩
  | @used c sane ready =>
    obtain ⟨ready', keeps⟩ := left_of_crashes_useConnection (sound c ready) unwritten crashed
    exact ⟨ready', fun counted => ⟨c, d, ⟨sane, by simp [ready]⟩,
      fun _ stored before => ⟨stored, before, .inl rfl⟩, keeps counted⟩⟩

end Crash

section Update

variable {modName : String} {remoteId : Option String} {files : List SourceFile}
  {language : String} {translator : Translator}

theorem crashes_update_iff :
    (s.update now modName remoteId files language translator d).result = .error .crash ↔
      ∃ requests, .translating language requests ∈
          (s.update now modName remoteId files language translator d).events ∧
        translator language requests = .crashed := by
  rw [update]
  split
  · simp [refuse]
  · next nonempty =>
    exact crashes_perform_iff (Action.asks_update modName remoteId files)
      (Action.speaks_update (by simpa using nonempty))

theorem left_of_crashes_update (sound : s.Sound)
    (crashed : (s.update now modName remoteId files language translator d).result =
      .error .crash) :
    (s.update now modName remoteId files language translator d).store.isReady = true ∧
      (d.Counted → ∃ c d', s.Connects now d c d' ∧ d.Prepares d' ∧
        d'.Keeps (s.update now modName remoteId files language translator d).disk) := by
  rw [update] at crashed ⊢
  split at crashed
  · cases crashed
  · next nonempty =>
    rw [if_neg nonempty]
    exact left_of_crashes_perform sound (fun _ _ => Action.archive_of_crashes_update) crashed

end Update

/-! ### Refusals -/

theorem refuses_of_eq {r : StoreReply α} (fault : Fault) (eq : r = s.refuse d fault) :
    r.Refuses fault.code s d := by
  rw [eq]
  exact ⟨⟨fault, rfl, rfl⟩, rfl, rfl, fun _ => nofun⟩

/-- A call that is to use the connection is refused as that is. -/
theorem refuses_of_uses {call : Call α} {before : List Event}
    {use : Connection → Disk → ConnectionReply α} {fault : Fault}
    (uses : call.Uses s now before use) (eq : s.withConnection now use d = s.refuse d fault) :
    (s.call now call d).Refuses fault.code s d := by
  rw [uses.call_eq s rfl, eq]
  exact ⟨⟨fault, rfl, rfl⟩, rfl, rfl, by simpa [refuse] using uses.before⟩

/-- Not even closing takes a lock that is unusable. -/
theorem refuses_of_isClose {call : Call α} (unusable : s.poisoned = true)
    (closes : call.IsClose) : (s.call now call d).Refuses "LOCK_ERROR" s d := by
  cases call with
  | exportTo path => exact closes.elim
  | importFrom path => exact closes.elim
  | ask request =>
    cases request with
    | close => exact refuses_of_eq .poisoned (if_pos unusable)
    | _ => exact closes.elim

/-- Arguments are looked at before the state of the handle. -/
theorem refuses_of_malformed {call : Call α} (malformed : call.Malformed) :
    (s.call now call d).Refuses "INVALID_INPUT" s d := by
  cases call with
  | exportTo path => exact malformed.elim
  | importFrom path => exact malformed.elim
  | ask request =>
    cases request with
    | ensureMod name remoteId => exact refuses_of_eq (.input .blankModName) (if_pos malformed)
    | archiveMerged merged remoteId =>
      exact refuses_of_eq (.input .blankModName) (if_pos malformed)
    | adopt modName remoteId files renderings =>
      exact refuses_of_eq (.input .blankModName) (if_pos malformed)
    | update modName remoteId files language translator =>
      have empty : files = [] := malformed
      exact refuses_of_eq (.input .noSourceFiles) (if_pos (by simpa using empty))
    | _ => exact malformed.elim

/-! ### All together -/

/-- What a handle answers after any history. It says that it is ready exactly if its connection is
open. Until something opens, closes or crashes it, every call that needs the database has to connect
first. Once it was closed such calls are refused, and once a call crashed under the lock so is all
that takes the lock; arguments are refused in every state. An update crashes outside the lock
exactly if its translator crashes. That leaves the handle ready, and every row as it was once the
handle was connected; and connecting only makes tables that are missing. -/
theorem History.lifeCycle (history : Store.History settings deeds s) :
    (∀ now d, (s.call now (.ask .isReady) d).result = .ok true ↔ Opened deeds) ∧
    ((∀ deed ∈ deeds, ¬ deed.Opens ∧ ¬ deed.Closes ∧ ¬ deed.Crashes) →
      ∀ {α : Type} (call : Call α) now d, call.NeedsDatabase → s.Tries now call d) ∧
    ((∃ deed ∈ deeds, deed.Closes) →
      ∀ {α : Type} (call : Call α) now d, call.NeedsDatabase →
        (s.call now call d).Refuses "STORE_CLOSED" s d) ∧
    ((∃ deed ∈ deeds, deed.Crashes) →
      ∀ {α : Type} (call : Call α) now d, call.TakesLock →
        (s.call now call d).Refuses "LOCK_ERROR" s d) ∧
    (∀ {α : Type} (call : Call α) now d, call.Malformed →
      (s.call now call d).Refuses "INVALID_INPUT" s d) ∧
    ∀ modName remoteId files language translator now d,
      let reply := s.call now (.ask (.update modName remoteId files language translator)) d
      (reply.result = .error .crash ↔ ∃ requests, .translating language requests ∈ reply.events ∧
        translator language requests = .crashed) ∧
      (reply.result = .error .crash → reply.store.isReady = true ∧
        (d.Counted → ∃ c d', s.Connects now d c d' ∧ d.Prepares d' ∧ d'.Keeps reply.disk)) := by
  have followed := history.followed
  refine ⟨fun now d => ?_, fun untouched α call now d needs => ?_,
    fun closed α call now d needs => ?_, fun crashed α call now d takes => ?_,
    fun call now d malformed => ?_, ?_⟩
  · rw [← followed.isReady]
    change (Except.ok s.isReady : Except Failure Bool) = .ok true ↔ _
    simp
  · obtain ⟨before, use, uses⟩ := Call.exists_uses needs s now
    obtain ⟨sane, blank⟩ := followed.untouched untouched
    exact tries_of_uses uses sane blank d
  · obtain ⟨before, use, uses⟩ := Call.exists_uses needs s now
    have shut := followed.closed.mpr closed
    exact refuses_of_uses uses (withConnection_closed (followed.apart shut) shut now use d)
  · have unusable := followed.poisoned.mpr crashed
    obtain needs | closes := takes
    · obtain ⟨before, use, uses⟩ := Call.exists_uses needs s now
      exact refuses_of_uses uses (withConnection_poisoned unusable now use d)
    · exact refuses_of_isClose unusable closes
  · exact refuses_of_malformed malformed
  · intro modName remoteId files language translator now d
    exact ⟨crashes_update_iff, left_of_crashes_update followed.sound⟩

/-- A handle fails to connect where a directory is in the way. On another disk it connects, stays
ready when the translator crashes, and refuses what is asked after it was closed. A handle whose
clock crashes under its lock cannot even be closed. -/
theorem History.lifeCycle_of_retry :
    let s : Store := { settings := {} }
    let blocked : Disk := { nodes := [(["mods_cache.sqlite"], .directory)] }
    let files : List SourceFile := [⟨"a.yml", [⟨"k", none⟩], ["X"]⟩]
    let ensure : Call RowId := .ask (.ensureMod "Alpha" none)
    let update : Call UpdateOutcome := .ask (.update "Alpha" none files "ko" fun _ _ => .crashed)
    let first := s.call 1 ensure blocked
    let second := first.store.call 2 update {}
    let third := second.store.call 3 (.ask .close) second.disk
    let late := s.call (Access.latestTime + 1) ensure {}
    first.result = .error (.fault (.storeUnavailable "mods_cache.sqlite"
          (.cannotOpen "mods_cache.sqlite"))) ∧ first.store = s ∧
      Opened [⟨update, second⟩, ⟨ensure, first⟩] ∧ second.result = .error .crash ∧
      second.store.isReady = true ∧
      (third.store.call 4 ensure third.disk).Refuses "STORE_CLOSED" third.store third.disk ∧
      (late.store.call 5 (.ask .close) late.disk).Refuses "LOCK_ERROR" late.store late.disk := by
  intro s blocked files ensure update first second third late
  obtain ⟨failed, crashed, lateCrash⟩ :
      (s.connect 1 blocked).result = .error (.fault (.storeUnavailable "mods_cache.sqlite"
          (.cannotOpen "mods_cache.sqlite"))) ∧
        second.result = .error .crash ∧ late.result = .error .crashUnderLock := by
    decide +kernel
  have start : History {} [] s := .new
  have one : History {} [⟨ensure, first⟩] first.store := start.call ensure 1 blocked
  have two : History {} [⟨update, second⟩, ⟨ensure, first⟩] second.store := one.call update 2 {}
  have three := two.call (.ask .close) 3 second.disk
  have other : History {} [⟨ensure, late⟩] late.store :=
    start.call ensure (Access.latestTime + 1) {}
  obtain ⟨-, tries, -⟩ := start.lifeCycle
  obtain ⟨-, -, -, -, -, updates⟩ := one.lifeCycle
  obtain ⟨-, -, shut, -⟩ := three.lifeCycle
  obtain ⟨-, -, -, unusable, -⟩ := other.lifeCycle
  have needs : ensure.NeedsDatabase := by
    change ¬ (Text.allBlank "Alpha" = true)
    decide
  have tried := (tries (fun _ h => nomatch h) ensure 1 blocked needs).failed _ failed
  obtain ⟨answered, -⟩ := (updates "Alpha" none files "ko" (fun _ _ => .crashed) 2 {}).2 crashed
  have closed : third.result.isOk = true := by
    obtain ⟨disk, events, closed, -⟩ := close_of_sane (isReady_iff.mp answered).1 second.disk
    exact congrArg (·.result.isOk) closed
  refine ⟨tried.1, tried.2.2.1 nofun, (two.lifeCycle.1 2 {}).mp (congrArg _ answered), crashed,
    answered, ?_, ?_⟩
  · exact shut ⟨_, List.mem_cons_self, trivial, closed⟩ ensure 4 third.disk needs
  · exact unusable ⟨_, List.mem_cons_self, lateCrash⟩ (.ask .close) 5 late.disk (.inr trivial)

end Store

end LocalizationMemory
