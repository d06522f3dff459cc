import LocalizationMemory.Proofs.Archive.Quiet
import LocalizationMemory.Proofs.Requests

/-!
# Calls on a store

Whatever is called on a store comes to one of three things. It closes the store, or it leaves
all as it is, or it uses the connection in a way that does not depend on the state of the
store. No use of the connection exchanges its handle or reports that it was opened: only
connecting does.

## Main definitions

* `Call`, `Store.call` — what can be done with a store
* `Call.Malformed`, `Call.NeedsDatabase`, `Call.TakesLock` — calls that are refused for their
  arguments, that use the connection, and that take the lock
* `Connection.Yields` — what an action comes to through a connection
* `Connection.Plain` — a use keeps the handle and does not report that it was opened
* `Call.Uses` — the call uses the connection in this way

## Main results

* `Connection.Yields.crashes_iff` — when what asks a translator crashes outside the lock
* `Call.exists_uses`, `Call.idle` — what calls that need the database do, and what others do
-/

namespace LocalizationMemory

/-- What can be done with a store, by the type of the answer. -/
inductive Call : Type → Type 1
  | ask {α : Type} (request : Request α) : Call α
  | exportTo (path : String) : Call Unit
  | importFrom (path : String) : Call Unit

/-- Do something with a store. -/
def Store.call {α : Type} (s : Store) (now : Millis) (call : Call α) (d : Disk) : StoreReply α :=
  match call with
  | .ask request => s.ask now request d
  | .exportTo path => s.exportTo now path d
  | .importFrom path => s.importFrom now path d

namespace Call

variable {α : Type}

/-- The call is refused for its arguments: a name that must not be blank is, or there are no
files to update from. -/
def Malformed : Call α → Prop
  | .ask (.ensureMod name _) => Text.allBlank name = true
  | .ask (.archiveMerged merged _) => Text.allBlank merged.modName = true
  | .ask (.adopt modName _ _ _) => Text.allBlank modName = true
  | .ask (.update _ _ files _ _) => files = []
  | _ => False

/-- The call consults the database. No files can be compared without. -/
def NeedsDatabase : Call α → Prop
  | .ask .isReady => False
  | .ask .close => False
  | .ask (.plan _ files _) => files ≠ []
  | call => ¬ call.Malformed

/-- The call closes the store. -/
def IsClose : Call α → Prop
  | .ask .close => True
  | _ => False

/-- The call takes the lock of the handle and can report that it is unusable. -/
def TakesLock (call : Call α) : Prop := call.NeedsDatabase ∨ call.IsClose

end Call

variable {α : Type} {now : Millis} {d : Disk} {s : Store}

/-! ### What connections say -/

namespace Connection

variable {act : Action α}

/-- What an action comes to through a connection: what it comes to on some archive, or less if
the file cannot be read. -/
inductive Yields (act : Action α) : ConnectionReply α → Prop
  | seen {access : Access} {a : Archive} {r : ConnectionReply α}
      (result : r.result = (act access a).result) (events : r.events = (act access a).events) :
      Yields act r
  | silent {access : Access} {a : Archive} {failure : Failure} {r : ConnectionReply α}
      (silent : (act access a).trace.verdict = none)
      (failed : (act access a).result = .error failure) (result : r.result = .error failure)
      (events : r.events = []) : Yields act r
  | unread {cause : DatabaseFault} {r : ConnectionReply α}
      (result : r.result = .error (.database cause)) (events : r.events = []) : Yields act r

theorem yields_runBlind (c : Connection) (now : Millis) (act : Action α) (cause : DatabaseFault)
    (d : Disk) : Yields act (c.runBlind now act cause d) := by
  -- What comes to an end without a statement never learns that the file cannot be read.
  rw [runBlind]
  dsimp only
  split
  · next result silent => exact .seen result.symm rfl
  · next failure result silent => exact .silent silent result rfl rfl
  · exact .unread rfl rfl

theorem yields_run (c : Connection) (now : Millis) (act : Action α) (d : Disk) :
    Yields act (c.run now act d) := by
  rw [run]
  split
  · exact yields_runBlind c now act _ d
  · split
    · exact yields_runBlind c now act _ d
    · exact .seen rfl rfl

/-- What is run says no more than the action can. -/
theorem Yields.said {r : ConnectionReply α} {P : Event → Prop} (yields : Yields act r)
    (said : ∀ access a, ∀ e ∈ (act access a).events, P e) : ∀ e ∈ r.events, P e := by
  intro e he
  cases yields with
  | seen result events =>
    rw [events] at he
    exact said _ _ e he
  | silent _ _ _ events | unread _ events =>
    rw [events] at he
    cases he

theorem Yields.goesOn {r : ConnectionReply α} (yields : Yields act r) (quiet : act.Quiet) :
    r.result ≠ .error .crash := by
  cases yields with
  | seen result =>
    rw [result]
    exact quiet.goesOn _ _
  | silent silent failed result =>
    rw [result, ← failed]
    exact quiet.goesOn _ _
  | unread result =>
    rw [result]
    rintro ⟨⟩

/-- What asks a translator and makes a statement crashes outside the lock exactly when the
translator crashes on requests that were reported. -/
theorem Yields.crashes_iff {language : String} {translator : Translator} {r : ConnectionReply α}
    (yields : Yields act r) (asks : act.Asks language translator) (speaks : act.Speaks) :
    r.result = .error .crash ↔
      ∃ requests, .translating language requests ∈ r.events ∧
        translator language requests = .crashed := by
  cases yields with
  | seen result events =>
    rw [result, events]
    exact asks.crashes _ _
  | @silent access a _ _ silent =>
    -- The action makes a statement on every archive, so it is not silent.
    have spoke := speaks access a
    rw [silent] at spoke
    cases spoke
  | unread result events => simp [result, events]

/-- A use of the connection keeps its handle, and does not report that it was opened. -/
structure Plain (use : Connection → Disk → ConnectionReply α) : Prop where
  handle : ∀ c d, (use c d).connection.handle = c.handle
  unopened : ∀ c d path, .connected path ∉ (use c d).events

theorem plain_run (now : Millis)
    (said : ∀ access a, ∀ e ∈ (act access a).events, ∀ path, e ≠ .connected path) :
    Plain (·.run now act) where
  handle c d := handle_run c now act d
  unopened c d path told := (yields_run c now act d).said said _ told path rfl

theorem plain_run_of_quiet (now : Millis) (quiet : act.Quiet) : Plain (·.run now act) := by
  refine plain_run now fun access a e he path told => ?_
  have said := quiet.events access a e he
  rw [told] at said
  exact said

/-- To ask a translator is not to report a connection. -/
theorem plain_run_of_asks {language : String} {translator : Translator} (now : Millis)
    (asks : act.Asks language translator) : Plain (·.run now act) := by
  refine plain_run now fun access a e he path told => ?_
  obtain said | ⟨requests, asked⟩ := asks.said access a e he
  · rw [told] at said
    exact said
  · cases told.symm.trans asked

theorem quiet_prepare : Action.prepare.Quiet where
  events access a e he := by
    unfold Action.prepare at he
    dsimp only at he
    split at he
    · split at he
      · obtain rfl := List.mem_singleton.mp he
        trivial
      · cases he
    · cases he
  goesOn access a := by
    unfold Action.prepare
    dsimp only
    split <;> rintro ⟨⟩

theorem plain_exportTo (path : String) : Plain (·.exportTo path) := by
  have kept (c : Connection) (d : Disk) :
      (c.exportTo path d).connection.handle = c.handle ∧ (c.exportTo path d).events = [] := by
    rw [exportTo]
    split
    · exact ⟨rfl, rfl⟩
    · split
      · exact ⟨rfl, rfl⟩
      · split
        · exact ⟨rfl, rfl⟩
        · dsimp only
          split
          · split
            · exact ⟨rfl, rfl⟩
            · split
              · exact ⟨rfl, rfl⟩
              · exact ⟨rfl, rfl⟩
          · exact ⟨rfl, rfl⟩
  exact ⟨fun c d => (kept c d).1, fun c d path told => by simp [(kept c d).2] at told⟩

theorem plain_importFrom (now : Millis) (path : String) : Plain (·.importFrom now path) := by
  have prepares := plain_run_of_quiet now quiet_prepare
  have kept (c : Connection) (d : Disk) : (c.importFrom now path d).connection.handle = c.handle ∧
      ∀ other, .connected other ∉ (c.importFrom now path d).events := by
    rw [importFrom]
    split
    · split
      · exact ⟨rfl, fun _ => List.not_mem_nil⟩
      · dsimp only
        split
        · exact ⟨rfl, fun _ => List.not_mem_nil⟩
        · exact ⟨rfl, fun _ => List.not_mem_nil⟩
        · split
          · exact ⟨rfl, fun _ => List.not_mem_nil⟩
          · split
            · exact ⟨rfl, fun _ => List.not_mem_nil⟩
            · exact ⟨rfl, fun _ => List.not_mem_nil⟩
            · exact ⟨prepares.handle _ _, prepares.unopened _ _⟩
    · exact ⟨rfl, fun _ => List.not_mem_nil⟩
  exact ⟨fun c d => (kept c d).1, fun c d => (kept c d).2⟩

end Connection

/-! ### What calls use -/

namespace Call

/-- On stores with the settings of one the call uses the connection in this way, after some
reports that do not say that it was opened. -/
structure Uses (call : Call α) (s : Store) (now : Millis) (before : List Event)
    (use : Connection → Disk → ConnectionReply α) : Prop where
  call_eq : ∀ s' : Store, s'.settings = s.settings → ∀ d,
    s'.call now call d = { s'.withConnection now use d with
      events := before ++ (s'.withConnection now use d).events }
  before : ∀ path, .connected path ∉ before
  plain : Connection.Plain use

theorem uses_perform {call : Call α} {act : Action α}
    (plain : Connection.Plain (·.run now act))
    (performs : ∀ s' : Store, s'.settings = s.settings → ∀ d,
      s'.call now call d = s'.perform now act d) :
    call.Uses s now [] (·.run now act) where
  call_eq := performs
  before _ := nofun
  plain := plain

/-- A call that performs a quiet action uses the connection to run it. -/
theorem uses_quiet {call : Call α} {act : Action α} (quiet : act.Quiet)
    (performs : ∀ s' : Store, s'.settings = s.settings → ∀ d,
      s'.call now call d = s'.perform now act d) :
    call.Uses s now [] (·.run now act) :=
  uses_perform (Connection.plain_run_of_quiet now quiet) performs

theorem uses_update {modName : String} {remoteId : Option String} {files : List SourceFile}
    {language : String} {translator : Translator} (nonempty : files ≠ []) :
    (ask (.update modName remoteId files language translator)).Uses s now []
      (·.run now (Action.update modName remoteId files language translator)) :=
  uses_perform (Connection.plain_run_of_asks now (Action.asks_update _ _ _)) fun _ _ _ =>
    if_neg (by simpa using nonempty)

/-- Every call that needs the database uses the connection in some way. -/
theorem exists_uses {call : Call α} (needs : call.NeedsDatabase) (s : Store) (now : Millis) :
    ∃ before use, call.Uses s now before use := by
  cases call with
  | exportTo path => exact ⟨[], _, fun _ _ _ => rfl, fun _ => nofun, Connection.plain_exportTo path⟩
  | importFrom path =>
    exact ⟨[], _, fun _ _ _ => rfl, fun _ => nofun, Connection.plain_importFrom now path⟩
  | ask request =>
    cases request with
    | isReady => exact needs.elim
    | close => exact needs.elim
    | modNamed name => exact ⟨_, _, uses_quiet (Action.quiet_inspect _) fun _ _ _ => rfl⟩
    | modWithRemoteId remoteId =>
      exact ⟨_, _, uses_quiet (Action.quiet_inspect _) fun _ _ _ => rfl⟩
    | latestVersion modName =>
      exact ⟨_, _, uses_quiet (Action.quiet_latestVersionNamed _) fun _ _ _ => rfl⟩
    | versions modName =>
      exact ⟨_, _, uses_quiet (Action.quiet_versionSummariesNamed _) fun _ _ _ => rfl⟩
    | languageStats versionId =>
      exact ⟨_, _, uses_quiet (Action.quiet_inspect _) fun _ _ _ => rfl⟩
    | entries modName path language =>
      exact ⟨_, _, uses_quiet (Action.quiet_archivedEntries _ _ _) fun _ _ _ => rfl⟩
    | defaultEntries modName path =>
      -- The language is one of the settings, which are the same.
      refine ⟨_, _, uses_quiet
        (Action.quiet_archivedEntries modName path s.settings.defaultLanguage) fun s' same d => ?_⟩
      simp only [Store.call, Store.ask, Store.defaultEntries, same]
    | plan modName files language =>
      have nonempty : files ≠ [] := needs
      exact ⟨_, _, uses_quiet (Action.quiet_plan modName files language) fun _ _ _ =>
        if_neg (by simpa using nonempty)⟩
    | ensureMod name remoteId =>
      exact ⟨_, _, uses_quiet (Action.quiet_ensureMod name remoteId) fun _ _ _ => if_neg needs⟩
    | snapshot modId files =>
      -- Misaligned files are reported before.
      exact ⟨misalignments files, _, fun _ _ _ => rfl, fun _ => quiet_misalignments _,
        Connection.plain_run_of_quiet now (Action.quiet_snapshot modId files)⟩
    | archiveResults versionId results files language =>
      exact ⟨_, _, uses_quiet (Action.quiet_archiveAligned _ _ _ _) fun _ _ _ => rfl⟩
    | correct modName path corrections language =>
      exact ⟨_, _, uses_quiet (Action.quiet_correct _ _ _ _) fun _ _ _ => rfl⟩
    | archiveMerged merged remoteId =>
      exact ⟨_, _, uses_quiet (Action.quiet_archiveMerged merged remoteId) fun _ _ _ =>
        if_neg needs⟩
    | adopt modName remoteId files renderings =>
      exact ⟨_, _, uses_quiet (Action.quiet_adopt modName remoteId files renderings) fun _ _ _ =>
        if_neg needs⟩
    | update modName remoteId files language translator => exact ⟨_, _, uses_update needs⟩

/-- Closing does not need the database. -/
theorem NeedsDatabase.not_isClose {call : Call α} (needs : call.NeedsDatabase) :
    ¬ call.IsClose := by
  intro closes
  cases call with
  | ask request => cases request <;> first | exact needs | exact closes
  | exportTo path => exact closes
  | importFrom path => exact closes

/-- A call that does not need the database leaves all as it is, unless it closes the store. -/
theorem idle {call : Call α} (needless : ¬ call.NeedsDatabase) (stays : ¬ call.IsClose) :
    (s.call now call d).store = s ∧ (s.call now call d).disk = d ∧
      (∀ path, .connected path ∉ (s.call now call d).events) ∧
      (s.call now call d).result ≠ .error .crashUnderLock := by
  -- Of these calls some are refused for their arguments; the others look at no file.
  have refused {β : Type} (fault : Fault) {r : StoreReply β} (eq : r = s.refuse d fault) :
      r.store = s ∧ r.disk = d ∧ (∀ path, .connected path ∉ r.events) ∧
        r.result ≠ .error .crashUnderLock := by
    rw [eq]
    exact ⟨rfl, rfl, fun _ => nofun, nofun⟩
  cases call with
  | exportTo path => exact absurd not_false needless
  | importFrom path => exact absurd not_false needless
  | ask request =>
    cases request with
    | isReady => exact ⟨rfl, rfl, fun _ => nofun, nofun⟩
    | close => exact absurd trivial stays
    | plan modName files language =>
      have empty : files = [] := not_not.mp needless
      rw [empty]
      exact ⟨rfl, rfl, fun _ => by simp [Store.call, Store.ask, Store.plan], nofun⟩
    | ensureMod name remoteId => exact refused _ (if_pos (not_not.mp needless))
    | archiveMerged merged remoteId => exact refused _ (if_pos (not_not.mp needless))
    | adopt modName remoteId files renderings =>
      exact refused _ (if_pos (not_not.mp needless))
    | update modName remoteId files language translator =>
      have empty : files = [] := not_not.mp needless
      exact refused _ (if_pos (by simpa using empty))
    | _ => exact absurd not_false needless

end Call

end LocalizationMemory
