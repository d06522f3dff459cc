import LocalizationMemory.Proofs.Archive.Operation
import LocalizationMemory.Proofs.Disk
import LocalizationMemory.Store.Rival

/-!
# What connections and stores do to the archives on a disk

Whatever is done through a connection or a store, the archives on the disk change by
writes and by what can be done to files alone. A relation of archives that both respect
is one along which every operation moves the archive of its file, in every state of a
handle, and however the operation ends. Lost is at most the archive of a file that
another is copied to, and of one that is written to through an unsound handle.

## Main definitions

* `Archive.Kept` — a property is kept from one archive to another
* `Invariant` — a property that writes at a time and what is done to files keep
* `Tolerant`, `Lasting` — a relation that is respected by what is done to files, and by
  writes at a time
* `Store.operate` — what an operation on a store leaves of the disk
* `Store.Connects` — the connection that a store uses next
* `Connection.Replaces` — an export replaces what a file holds

## Main results

* `Disk.changes_run`, `Tolerant.changes_exportTo`, `Tolerant.changes_importFrom` — what
  connections do
* `Lasting.changes_operate` — what every operation on a store does
* `Tolerant.changes_amid` — what a call does that meets a rival
-/

namespace LocalizationMemory

/-- A property is kept from one archive to another. -/
def Archive.Kept (P : Archive → Prop) (a b : Archive) : Prop := P a → P b

/-- An action that keeps a property keeps it when it ends with a result. -/
theorem Action.Ends.kept {P : Archive → Prop} {α : Type} {act : Action α} {access : Access}
    {a b : Archive} {x : α} (ends : act.Ends access a x b)
    (moves : act.Moves (Archive.Kept P) access) (ha : P a) : P b := by
  have moved := moves a ha
  rw [ends.2] at moved
  exact moved

/-- A property of archives that the writes at one time keep, and what is done to files. -/
structure Invariant (P : Archive → Prop) (now : Millis) : Prop extends Prepares P where
  writes : WritesWithin (Archive.Kept P) now

/-- A relation of archives that is respected by what is done to files. -/
structure Tolerant (R : Archive → Archive → Prop) : Prop where
  refl : ∀ a, R a a
  prepare : ∀ a, R a a.prepare

/-- A relation of archives that is respected by what is done to files, and by the writes at one
time. -/
structure Lasting (R : Archive → Archive → Prop) (now : Millis) : Prop extends Tolerant R where
  writes : WritesWithin R now

/-- What an invariant keeps lasts. -/
theorem Invariant.lasting {P : Archive → Prop} {now : Millis} (inv : Invariant P now) :
    Lasting (Archive.Kept P) now where
  refl := inv.writes.refl
  prepare := inv.prepare
  writes := inv.writes

/-- What an operation on a store leaves of the disk. -/
def Store.operate (s : Store) (now : Millis) (d : Disk) : Operation → Disk
  | .ensureMod name remoteId => (s.ensureMod now name remoteId d).disk
  | .snapshot modId files => (s.snapshot now modId files d).disk
  | .archiveResults versionId results files language =>
    (s.perform now (Action.archiveResults versionId results files language) d).disk
  | .putRenderings language rows => (s.perform now (Action.putRenderings language rows) d).disk
  | .correct modName path corrections language =>
    (s.perform now (Action.correct modName path corrections language) d).disk
  | .adopt modName remoteId files renderings =>
    (s.adopt now modName remoteId files renderings d).disk
  | .archiveMerged merged remoteId => (s.archiveMerged now merged remoteId d).disk
  | .update modName remoteId files language translator =>
    (s.update now modName remoteId files language translator d).disk
  | .refuseInserts rule => (s.perform now (Action.addRule rule) d).disk
  | .acceptInserts => (s.perform now Action.clearRules d).disk

/-- The connection that a store uses next, and the disk on which it does: the one that it
has, or the one that it makes. -/
def Store.Connects (s : Store) (now : Millis) (d : Disk) (c : Connection) (d' : Disk) : Prop :=
  s.poisoned = false ∧
    match s.state with
    | .closed => False
    | .ready known => c = known ∧ d' = d
    | .notReady => (s.connect now d).result = .ok c ∧ d' = (s.connect now d).disk

/-- The connection of a store has a sound handle, if there is one. -/
def Store.Sound (s : Store) : Prop := ∀ c, s.state = .ready c → c.handle.Sound

/-- An export to a path replaces what a file holds: the path leads to it, and it is not what
is copied. -/
def Connection.Replaces (c : Connection) (path : String) (d : Disk) (id : FileId) : Prop :=
  ∃ target opened,
    (d.createDirectories (Path.steps path).dropLast).2.openFile path = .ok (target, opened) ∧
      target.file = id ∧ ¬ (c.handle.file = id ∧ c.handle.frozen = false)

/-! ### Sound handles -/

section Sound

variable {α : Type} {now : Millis} {d d' : Disk} {c : Connection}

/-- No action exchanges the handle of its connection. -/
theorem Connection.handle_run (c : Connection) (now : Millis) (act : Action α) (d : Disk) :
    (c.run now act d).connection.handle = c.handle := by
  have blind (cause : DatabaseFault) : (c.runBlind now act cause d).connection.handle = c.handle := by
    rw [Connection.runBlind]
    dsimp only
    split <;> rfl
  rw [Connection.run]
  split
  · exact blind _
  · split
    · exact blind _
    · rfl

theorem Connection.sound_establish {path : String}
    (h : (Connection.establish path d).1 = .ok c) : c.handle.Sound := by
  rw [Connection.establish] at h
  split at h
  · cases h
  · next handle opened hopened =>
    split at h
    · cases h
    · cases h
      exact Disk.sound_of_openFile hopened

theorem Store.sound_connect {s : Store} (h : (s.connect now d).result = .ok c) :
    c.handle.Sound := by
  rw [Store.connect] at h
  dsimp only at h
  split at h
  · cases h
  · next made _ =>
    split at h
    · cases h
    · next established left he =>
      split at h
      · cases h
      · split at h
        · cases h
        · cases h
        · cases h
          rw [Connection.handle_run]
          exact Connection.sound_establish (congrArg Prod.fst he)

theorem Store.Connects.sound {s : Store} (h : s.Connects now d c d') (sound : s.Sound) :
    c.handle.Sound := by
  obtain ⟨-, h⟩ := h
  split at h
  · exact h.elim
  · next known ready =>
    rw [h.1]
    exact sound known ready
  · exact Store.sound_connect h.1

/-- A store that answers from an archive keeps the handle that it did so through. -/
theorem Store.exists_ready_of_perform {s : Store} {act : Action α} {x : α}
    (h : (s.perform now act d).result = .ok x) :
    ∃ c d' c', s.Connects now d c d' ∧ (s.perform now act d).store.state = .ready c' ∧
      c'.handle = c.handle := by
  rw [Store.perform, Store.withConnection] at h ⊢
  split at h
  · cases h
  · next sane =>
    rw [if_neg sane]
    have sane : s.poisoned = false := by simpa using sane
    cases state : s.state with
    | closed =>
      rw [state] at h
      cases h
    | ready c =>
      exact ⟨c, d, _, ⟨sane, by simp [state]⟩, rfl, c.handle_run now act d⟩
    | notReady =>
      rw [state] at h
      cases connected : (s.connect now d).result with
      | error failure =>
        simp only [connected] at h
        cases h
      | ok c =>
        refine ⟨c, (s.connect now d).disk, _, ⟨sane, by simp [state, connected]⟩, ?_,
          c.handle_run now act (s.connect now d).disk⟩
        simp only [connected]
        rfl

/-- So the handle is sound if the ones before were. -/
theorem Store.fit_of_perform {s : Store} {act : Action α} {x : α} {lost : FileId → Prop}
    (fit : ∀ c d', s.Connects now d c d' → c.handle.Sound ∨ lost c.handle.file)
    (h : (s.perform now act d).result = .ok x) {c : Connection} {d₁ d₂ : Disk}
    (connects : (s.perform now act d).store.Connects now d₁ c d₂) :
    c.handle.Sound ∨ lost c.handle.file := by
  obtain ⟨first, d', next, before, ready, same⟩ := Store.exists_ready_of_perform h
  obtain ⟨-, connects⟩ := connects
  rw [ready] at connects
  rw [connects.1, same]
  exact fit first d' before

end Sound

section Changes

open Disk

variable {R : Archive → Archive → Prop} {now : Millis} {α : Type} {lost : FileId → Prop}
  {d : Disk}

/-! ### Connections -/

theorem Disk.changes_runBlind (c : Connection) (act : Action α) (cause : DatabaseFault) :
    Changes R lost d (c.runBlind now act cause d).disk := by
  rw [Connection.runBlind]
  dsimp only
  split <;> exact .refl

/-- Running an action moves the archive of the connection's file as the action does when it ends
with this result. -/
theorem Disk.changes_run_of_result {c : Connection} {act : Action α}
    (moves : ∀ access a, access.now = now → (act access a).result = (c.run now act d).result →
      R a (act access a).archive)
    (fit : c.handle.Sound ∨ lost c.handle.file) :
    Changes R lost d (c.run now act d).disk := by
  cases shown : d.seen c.handle with
  | error cause =>
    simp only [Connection.run, shown]
    exact changes_runBlind c act _
  | ok stored =>
    cases gone : c.isGone d with
    | true =>
      simp only [Connection.run, shown, gone, if_true]
      exact changes_runBlind c act _
    | false =>
      simp only [Connection.run, shown, gone, Bool.false_eq_true, if_false] at moves ⊢
      split
      · exact .refl
      · next writable =>
        cases before : d.stored? c.handle.file with
        | none => simp [Disk.seen, before] at shown
        | some s =>
          cases frozen : c.handle.frozen with
          | false =>
            obtain rfl := Option.some.inj (before.symm.trans (stored?_of_seen shown frozen))
            simp only [frozen] at moves
            exact .setArchive before (moves _ _ rfl rfl)
          | true =>
            -- What is frozen may show less than there is, and is only written to if unsound.
            have gone := fit.resolve_left fun sound => writable (sound frozen)
            simp only [frozen] at moves
            refine .replaceArchive gone before ?_ (moves _ _ rfl rfl)
            split
            · exact .inl rfl
            · exact shows_of_seen shown

/-- Running an action moves the archive of the connection's file as the action does. -/
theorem Disk.changes_run {c : Connection} {act : Action α}
    (moves : ∀ access, access.now = now → act.Moves R access)
    (fit : c.handle.Sound ∨ lost c.handle.file) :
    Changes R lost d (c.run now act d).disk :=
  changes_run_of_result (fun access a hnow _ => moves access hnow a) fit

/-- An action on the file of a path moves its archive, through a handle that is sound. -/
theorem Disk.changes_runAt {act : Action α} (refl : ∀ a, R a a)
    (moves : ∀ access, access.now = now → act.Moves R access) (path : String) :
    Changes R lost d (Connection.runAt path now act d).disk := by
  rw [Connection.runAt]
  split
  · exact .refl
  · next handle opened hopened =>
    have opens : Changes R lost d opened := changes_openFile hopened
    have sound : ({ handle } : Connection).handle.Sound := sound_of_openFile hopened
    exact (opens.trans (changes_run moves (.inl sound))).trans (changes_closeFile refl _ _)

theorem Disk.changes_establish (refl : ∀ a, R a a) (path : String) :
    Changes R lost d (Connection.establish path d).2 := by
  rw [Connection.establish]
  split
  · exact .refl
  · next handle opened hopened =>
    have step : Changes R lost d opened := changes_openFile hopened
    split
    · exact step.trans (changes_closeFile refl _ _)
    · next ready hready => exact step.trans (changes_writeAhead refl hready)

/-- The tables of today are made only if it is said that they are there. -/
theorem Action.prepare_cases (access : Access) (a : Archive) :
    (Action.prepare access a).archive = a ∨
      (Action.prepare access a).result = .ok () ∧
        (Action.prepare access a).archive = a.prepare := by
  unfold Action.prepare
  dsimp only
  split
  · exact .inr ⟨rfl, rfl⟩
  · exact .inl rfl

/-- Connecting moves archives only by making tables, and not even so if it fails. -/
theorem Disk.changes_connect {s : Store} (refl : ∀ a, R a a)
    (prepare : (s.connect now d).result.isOk = true → ∀ a, R a a.prepare) :
    Changes R lost d (s.connect now d).disk := by
  have directories :
      Changes R lost d (d.createDirectories (Path.steps s.settings.dbPath).dropLast).2 :=
    changes_createDirectories _ _
  rcases hmade : d.createDirectories (Path.steps s.settings.dbPath).dropLast with ⟨_ | cause, made⟩
  · rw [hmade] at directories
    have established := directories.trans (changes_establish refl s.settings.dbPath)
    rcases he : Connection.establish s.settings.dbPath made with ⟨cause | c, left⟩
    · rw [he] at established
      simp only [Store.connect, hmade, he]
      exact established
    · rw [he] at established
      have sound : c.handle.Sound := Connection.sound_establish (congrArg Prod.fst he)
      by_cases long : Store.longestWait < s.settings.busyTimeoutMs.toNat
      · simp only [Store.connect, hmade, he, if_pos long]
        exact established.trans (changes_closeFile refl _ _)
      · have prepared : Changes R lost d (c.run now Action.prepare left).disk := by
          refine established.trans (changes_run_of_result (fun access a _ same => ?_) (.inl sound))
          obtain same' | ⟨ok, same'⟩ := Action.prepare_cases access a
          · rw [same']
            exact refl a
          · rw [ok] at same
            rw [same']
            exact prepare (by simp [Store.connect, hmade, he, long, ← same, Except.isOk,
              Except.toBool]) a
        simp only [Store.connect, hmade, he, if_neg long]
        split
        · exact prepared.trans (changes_closeFile refl _ _)
        · exact prepared.trans (changes_closeFile refl _ _)
        · exact prepared
  · rw [hmade] at directories
    simp only [Store.connect, hmade]
    exact directories

namespace Tolerant

variable (tolerant : Tolerant R)

include tolerant

theorem moves_prepare (access : Access) : Action.prepare.Moves R access := by
  intro a
  obtain same | ⟨-, same⟩ := Action.prepare_cases access a
  · rw [same]
    exact tolerant.refl a
  · rw [same]
    exact tolerant.prepare a

theorem changes_runPrepare (now : Millis) {c : Connection}
    (fit : c.handle.Sound ∨ lost c.handle.file) :
    Changes R lost d (c.run now Action.prepare d).disk :=
  changes_run (fun access _ => tolerant.moves_prepare access) fit

theorem changes_openPath (path : String) (wait : Nat) :
    Changes R lost d (Connection.openPath path wait d).disk := by
  have step : Changes R lost d (Connection.establish path d).2 :=
    changes_establish tolerant.refl path
  rw [Connection.openPath]
  split
  · next cause left he =>
    rw [he] at step
    exact step
  · next c left he =>
    rw [he] at step
    exact step

theorem changes_exportTo {c : Connection} {path : String}
    (gone : ∀ id, c.Replaces path d id → lost id) :
    Changes R lost d (c.exportTo path d).disk := by
  have directories : Changes R lost d (d.createDirectories (Path.steps path).dropLast).2 :=
    changes_createDirectories _ _
  rw [Connection.exportTo]
  rcases hmade : d.createDirectories (Path.steps path).dropLast with ⟨_ | cause, made⟩
  · rw [hmade] at directories
    dsimp only
    split
    · exact directories
    · next target opened hopened =>
      have step := directories.trans (changes_openFile hopened)
      split
      · exact step.trans (changes_closeFile tolerant.refl _ _)
      · next ready hready =>
        have step := step.trans
          (changes_makeTables tolerant.prepare (sound_of_openFile hopened) hready)
        split
        · next stored _ hs =>
          split
          · exact step.trans (changes_closeFile tolerant.refl _ _)
          · split
            · exact step.trans (changes_closeFile tolerant.refl _ _)
            · refine (step.trans (changes_copyArchive tolerant.refl (shows_of_seen hs) ?_)).trans
                (changes_closeFile tolerant.refl _ _)
              -- What is copied onto itself is not replaced.
              by_cases own : c.handle.file = target.file ∧ c.handle.frozen = false
              · right
                rw [← own.1]
                exact stored?_of_seen hs own.2
              · left
                refine gone _ ⟨target, opened, ?_, rfl, own⟩
                rw [hmade]
                exact hopened
        · exact step.trans (changes_closeFile tolerant.refl _ _)
  · rw [hmade] at directories
    exact directories

theorem changes_importFrom {c : Connection} (path : String) (gone : lost c.handle.file) :
    Changes R lost d (c.importFrom now path d).disk := by
  rw [Connection.importFrom]
  split
  · split
    · exact .refl
    · next origin opened hopened =>
      have step : Changes R lost d opened := changes_openFile hopened
      have left := step.trans (changes_closeFile tolerant.refl opened origin)
      dsimp only
      split
      · exact left
      · exact left
      · next stored _ hs _ =>
        split
        · exact left
        · split
          · exact left
          · exact left
          · have copied := step.trans
              (changes_copyArchive tolerant.refl (shows_of_seen hs) (.inl gone))
            refine (copied.trans (changes_closeFile tolerant.refl _ origin)).trans ?_
            exact tolerant.changes_runPrepare now (.inr gone)
  · exact .refl

/-! ### Stores -/

variable {s : Store}

theorem changes_connect (s : Store) : Changes R lost d (s.connect now d).disk :=
  Disk.changes_connect tolerant.refl fun _ => tolerant.prepare

theorem changes_withConnection {use : Connection → Disk → ConnectionReply α}
    (moves : ∀ c d', s.Connects now d c d' → Changes R lost d' (use c d').disk) :
    Changes R lost d (s.withConnection now use d).disk := by
  have connected : Changes R lost d (s.connect now d).disk := tolerant.changes_connect s
  rw [Store.withConnection]
  split
  · exact .refl
  · next sane =>
    have sane : s.poisoned = false := by simpa using sane
    split
    · exact .refl
    · next c ready => exact moves c d ⟨sane, by simp [ready]⟩
    · next blank =>
      dsimp only
      split
      · exact connected
      · next c hc => exact connected.trans (moves c _ ⟨sane, by simp [blank, hc]⟩)

theorem changes_storeClose (s : Store) : Changes R lost d (s.close d).disk := by
  rw [Store.close]
  split
  · exact .refl
  · dsimp only
    split
    · exact changes_closeFile tolerant.refl _ _
    · exact .refl

theorem changes_storeDrop (s : Store) : Changes R lost d (s.drop d).disk := by
  have closed : Changes R lost d (s.close d).disk := tolerant.changes_storeClose s
  rw [Store.drop]
  dsimp only
  split
  · exact closed.trans (changes_closeFile tolerant.refl _ _)
  · exact closed

theorem changes_storeExport {path : String}
    (gone : ∀ c d', s.Connects now d c d' → ∀ id, c.Replaces path d' id → lost id) :
    Changes R lost d (s.exportTo now path d).disk :=
  tolerant.changes_withConnection fun c d' connects =>
    tolerant.changes_exportTo (gone c d' connects)

theorem changes_storeImport (path : String)
    (gone : ∀ c d', s.Connects now d c d' → lost c.handle.file) :
    Changes R lost d (s.importFrom now path d).disk :=
  tolerant.changes_withConnection fun c d' connects =>
    tolerant.changes_importFrom path (gone c d' connects)

theorem changes_perform {act : Action α}
    (fit : ∀ c d', s.Connects now d c d' → c.handle.Sound ∨ lost c.handle.file)
    (moves : ∀ access, access.now = now → act.Moves R access) :
    Changes R lost d (s.perform now act d).disk :=
  tolerant.changes_withConnection fun c d' connects => changes_run moves (fit c d' connects)

/-- A call with a rival moves archives as the rival, the look-up and the write do. -/
theorem changes_amid {rival : Disk → DiskReply Unit} {looked : StoreReply (Option α)}
    {write : Action α} (rivals : ∀ d, Changes R lost d (rival d).disk)
    (looks : Changes R lost d looked.disk)
    (fit : looked.result = .ok none → ∀ c d', looked.store.Connects now (rival looked.disk).disk
      c d' → c.handle.Sound ∨ lost c.handle.file)
    (moves : ∀ access, access.now = now → write.Moves R access) :
    Changes R lost d (s.amid now rival looked write d).disk := by
  have meets := looks.trans (rivals looked.disk)
  rw [Store.amid]
  split
  · exact rivals d
  · dsimp only
    split
    · exact meets
    · exact meets
    · next missed => exact meets.trans (tolerant.changes_perform (fit missed) moves)

end Tolerant

namespace Lasting

variable (lasting : Lasting R now)

include lasting

theorem changes_ensureModAmid {s : Store}
    (fit : ∀ c d', s.Connects now d c d' → c.handle.Sound ∨ lost c.handle.file)
    (path name : String) (remoteId : Option String) :
    Changes R lost d (s.ensureModAmid now path name remoteId d).disk := by
  refine lasting.changes_amid (fun d => changes_runAt lasting.refl (fun access hnow => ?_) path)
    ?_ (fun missed c d' connects => ?_) fun access hnow => ?_
  · subst hnow
    exact lasting.writes.moves_rivalMod name
  · split
    · exact .refl
    · exact lasting.changes_perform fit fun access _ =>
        (Action.reads_lookUp_ensureMod _ _).moves lasting.refl
  · split at missed
    · cases missed
    · next shown =>
      rw [if_neg shown] at connects
      exact Store.fit_of_perform fit missed connects
  · subst hnow
    exact lasting.writes.moves_commitMod name remoteId

theorem changes_snapshotAmid {s : Store}
    (fit : ∀ c d', s.Connects now d c d' → c.handle.Sound ∨ lost c.handle.file)
    (path : String) (modId : RowId) (files : List SourceFile) :
    Changes R lost d (s.snapshotAmid now path modId files d).disk := by
  refine lasting.changes_amid (fun d => changes_runAt lasting.refl (fun access hnow => ?_) path)
    ?_ (fun missed c d' connects => ?_) fun access hnow => ?_
  · subst hnow
    exact lasting.writes.moves_rivalVersion modId _
  · exact lasting.changes_perform fit fun access _ =>
      (Action.reads_lookUp_snapshot _ _).moves lasting.refl
  · exact Store.fit_of_perform fit missed connects
  · subst hnow
    exact Action.moves_commitVersion lasting.refl lasting.writes.trans
      fun a s b => lasting.writes.addVersion a modId files s b

theorem changes_runOperation {c : Connection} (op : Operation)
    (fit : c.handle.Sound ∨ lost c.handle.file) :
    Changes R lost d (c.run now op.action d).disk := by
  refine changes_run (fun access hnow => ?_) fit
  subst hnow
  exact lasting.writes.moves_action op

theorem changes_runOperationAt (op : Operation) (path : String) :
    Changes R lost d (Connection.runAt path now op.action d).disk := by
  refine changes_runAt lasting.refl (fun access hnow => ?_) path
  subst hnow
  exact lasting.writes.moves_action op

/-- Every operation on a store moves the archive of its file, in whatever state the store is. -/
theorem changes_operate {s : Store}
    (fit : ∀ c d', s.Connects now d c d' → c.handle.Sound ∨ lost c.handle.file) (op : Operation) :
    Changes R lost d (s.operate now d op) := by
  have writes : ∀ access : Access, access.now = now → WritesWithin R access.now := by
    rintro access rfl
    exact lasting.writes
  cases op with
  | ensureMod name remoteId =>
    simp only [Store.operate, Store.ensureMod]
    split
    · exact .refl
    · exact lasting.changes_perform fit fun access hnow => (writes access hnow).moves_ensureMod _ _
  | snapshot modId files =>
    exact lasting.changes_perform fit fun access hnow => (writes access hnow).moves_snapshot _ _
  | archiveResults versionId results files language =>
    exact lasting.changes_perform fit fun access hnow =>
      (writes access hnow).moves_archiveAligned _ _ _ _
  | putRenderings language rows =>
    exact lasting.changes_perform fit fun access hnow =>
      (writes access hnow).moves_putRenderings _ _
  | correct modName path corrections language =>
    exact lasting.changes_perform fit fun access hnow =>
      (writes access hnow).moves_correct _ _ _ _
  | adopt modName remoteId files renderings =>
    simp only [Store.operate, Store.adopt]
    split
    · exact .refl
    · exact lasting.changes_perform fit fun access hnow =>
        (writes access hnow).moves_adopt _ _ _ _
  | archiveMerged merged remoteId =>
    simp only [Store.operate, Store.archiveMerged]
    split
    · exact .refl
    · exact lasting.changes_perform fit fun access hnow =>
        (writes access hnow).moves_archiveMerged _ _
  | update modName remoteId files language translator =>
    simp only [Store.operate, Store.update]
    split
    · exact .refl
    · exact lasting.changes_perform fit fun access hnow =>
        (writes access hnow).moves_update _ _ _ _ _
  | refuseInserts rule =>
    exact lasting.changes_perform fit fun access hnow => (writes access hnow).moves_addRule rule
  | acceptInserts =>
    exact lasting.changes_perform fit fun access hnow => (writes access hnow).moves_clearRules

end Lasting

end Changes

end LocalizationMemory
