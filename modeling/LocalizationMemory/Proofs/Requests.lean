import LocalizationMemory.Proofs.Archive.Steady
import LocalizationMemory.Proofs.Store

/-!
# What a store answers

Whatever is asked of an open store about its archive, the answer depends on the archive, on
the time and on what stands in the way of a change. So two stores with the same archive give
the same answers from then on, wherever their archives are and whatever else is on the two
disks, if the same stands in their way. What they keep in mind plays no part.

## Main definitions

* `Request` — what a store can be asked, with the type of its answer
* `Store.ask`, `Store.askAll` — ask a store, once and any number of times
* `Connection.Serves` — the connection shows an archive, and what stands in its way
* `Store.Alike` — two stores have the same archive and the same in their way

## Main results

* `Connection.Serves.run` — what is run on a connection depends on the archive it serves
* `Store.Alike.ask` — stores that are alike answer alike and stay alike
* `Store.Alike.askAll` — so they give the same answers from then on
-/

namespace LocalizationMemory

/-- What a store can be asked about its archive, by the type of the answer. -/
inductive Request : Type → Type
  | isReady : Request Bool
  | close : Request Unit
  | modNamed (name : String) : Request (Option ModRow)
  | modWithRemoteId (remoteId : String) : Request (Option ModRow)
  | latestVersion (modName : String) : Request (Option VersionRow)
  | versions (modName : String) : Request (List VersionSummary)
  | languageStats (versionId : RowId) : Request (List LanguageStat)
  | entries (modName path language : String) : Request (List ArchivedEntry)
  | defaultEntries (modName path : String) : Request (List ArchivedEntry)
  | plan (modName : String) (files : List SourceFile) (language : String) : Request Plan
  | ensureMod (name : String) (remoteId : Option String) : Request RowId
  | snapshot (modId : RowId) (files : List SourceFile) : Request Snapshot
  | archiveResults (versionId : RowId) (results : FileResults) (files : List SourceFile)
      (language : String) : Request ArchiveReport
  | correct (modName path : String) (corrections : List Correction) (language : String) :
      Request Nat
  | archiveMerged (merged : MergedSet) (remoteId : Option String) : Request (RowId × ArchiveReport)
  | adopt (modName : String) (remoteId : Option String) (files : List SourceFile)
      (renderings : List RenderingFile) : Request AdoptionReport
  | update (modName : String) (remoteId : Option String) (files : List SourceFile)
      (language : String) (translator : Translator) : Request UpdateOutcome

/-- Ask a store. -/
def Store.ask {α : Type} (s : Store) (now : Millis) (request : Request α) (d : Disk) :
    StoreReply α :=
  match request with
  | .isReady => { result := .ok s.isReady, store := s, disk := d }
  | .close => s.close d
  | .modNamed name => s.perform now (Action.modNamed name) d
  | .modWithRemoteId remoteId => s.perform now (Action.modWithRemoteId remoteId) d
  | .latestVersion modName => s.perform now (Action.latestVersionNamed modName) d
  | .versions modName => s.perform now (Action.versionSummariesNamed modName) d
  | .languageStats versionId => s.perform now (Action.languageStats versionId) d
  | .entries modName path language => s.perform now (Action.archivedEntries modName path language) d
  | .defaultEntries modName path => s.defaultEntries now modName path d
  | .plan modName files language => s.plan now modName files language d
  | .ensureMod name remoteId => s.ensureMod now name remoteId d
  | .snapshot modId files => s.snapshot now modId files d
  | .archiveResults versionId results files language =>
    s.perform now (Action.archiveResults versionId results files language) d
  | .correct modName path corrections language =>
    s.perform now (Action.correct modName path corrections language) d
  | .archiveMerged merged remoteId => s.archiveMerged now merged remoteId d
  | .adopt modName remoteId files renderings => s.adopt now modName remoteId files renderings d
  | .update modName remoteId files language translator =>
    s.update now modName remoteId files language translator d

/-- A request at a time. -/
structure Asked where
  answer : Type
  now : Millis
  request : Request answer

/-- The answers of a store to requests, one after the other. -/
def Store.askAll (s : Store) : List Asked → Disk → List ((α : Type) × Except Failure α)
  | [], _ => []
  | asked :: r, d =>
    let reply := s.ask asked.now asked.request d
    ⟨asked.answer, reply.result⟩ :: reply.store.askAll r reply.disk

/-! ### Connections -/

/-- A connection that can be written through shows an archive, and this stands in its way. -/
structure Connection.Serves (c : Connection) (d : Disk) (obstacle : Option Obstacle)
    (a : Archive) : Prop where
  shown : ∃ stored, d.seen c.handle = .ok stored ∧ stored.archive = a
  there : c.isGone d = false
  thawed : c.handle.frozen = false
  writable : c.handle.readOnly = false
  hindrance : c.obstacle? d = obstacle
  paths : a.layout.hasFilePaths = true

namespace Connection.Serves

variable {α : Type} {c : Connection} {d : Disk} {obstacle : Option Obstacle} {a : Archive}
  {act : Action α}

/-- What is run on a connection comes to what the archive it serves leads to. If what is left has
a file for each entry, it is served from then on. -/
theorem run_eq (serves : c.Serves d obstacle a) (act : Action α) (now : Millis) :
    let access : Access := ⟨now, obstacle, !c.knowsTables && a.layout.hasTables, c.kept⟩
    (c.run now act d).result = (act access a).result ∧
      (c.run now act d).disk = d.setArchive c.handle.file (act access a).archive ∧
      ((act access a).archive.layout.hasFilePaths = true →
        (c.run now act d).connection.Serves (c.run now act d).disk obstacle
          (act access a).archive) := by
  obtain ⟨⟨stored, shown, rfl⟩, there, thawed, writable, hindrance, -⟩ := serves
  have before := Disk.stored?_of_seen shown thawed
  simp only [Connection.run, shown, there, thawed, writable, hindrance, Bool.false_and,
    Bool.false_eq_true, if_false, true_and]
  intro paths
  refine ⟨⟨_, Disk.seen_setArchive shown thawed _, rfl⟩, ?_, thawed, writable, ?_, paths⟩
  · -- The place of the file is as it was, and the log is pending only if it was.
    have gone : (c.logPending && c.handle.place.any fun place => (d.node? place).isNone) = false :=
      there
    simp only [Connection.isGone]
    change (c.logPending && _ && c.handle.place.any fun place => (d.node? place).isNone) = false
    cases pending : c.logPending with
    | false => rfl
    | true =>
      rw [pending, Bool.true_and] at gone
      rw [gone, Bool.and_false]
  · simp only [Connection.obstacle?] at hindrance ⊢
    rw [Disk.isHeld_setArchive before]
    exact hindrance

/-- What is run on a connection and steady depends on the archive it serves, on the time and on
what stands in the way, and what is left is served from then on. -/
theorem run (serves : c.Serves d obstacle a) (steady : act.Steady) (now : Millis) :
    (c.run now act d).result = (act { now, obstacle } a).result ∧
      (c.run now act d).connection.Serves (c.run now act d).disk obstacle
        (act { now, obstacle } a).archive := by
  have same : act ⟨now, obstacle, !c.knowsTables && a.layout.hasTables, c.kept⟩ a =
      act { now, obstacle } a := steady.bare _ _ serves.paths
  have paths : (act { now, obstacle } a).archive.layout.hasFilePaths = true := by
    rw [steady.layout]
    exact serves.paths
  obtain ⟨result, -, left⟩ := serves.run_eq act now
  rw [same] at result left
  exact ⟨result, left paths⟩

end Connection.Serves

/-! ### Stores -/

/-- Two stores have the same archive and the same in the way of a change, or both are closed. -/
structure Store.Alike (s : Store) (d : Disk) (s' : Store) (d' : Disk) : Prop where
  language : s'.settings.defaultLanguage = s.settings.defaultLanguage
  poisoned : s'.poisoned = s.poisoned
  state : (s.state = .closed ∧ s'.state = .closed) ∨
    ∃ c c' obstacle a, s.state = .ready c ∧ s'.state = .ready c' ∧ c.Serves d obstacle a ∧
      c'.Serves d' obstacle a

/-- Two replies have the same result and leave stores that are alike. -/
structure StoreReply.Alike {α : Type} (r r' : StoreReply α) : Prop where
  result : r'.result = r.result
  left : r.store.Alike r.disk r'.store r'.disk

/-- Replies that are chosen alike are alike if both choices are. -/
theorem StoreReply.Alike.ite {α : Type} {p : Prop} [Decidable p] {r r' t t' : StoreReply α}
    (yes : r.Alike r') (no : t.Alike t') : (if p then r else t).Alike (if p then r' else t') := by
  by_cases h : p
  · rw [if_pos h, if_pos h]
    exact yes
  · rw [if_neg h, if_neg h]
    exact no

namespace Store.Alike

variable {α : Type} {s s' : Store} {d d' : Disk}

theorem refuse (alike : s.Alike d s' d') (fault : Fault) :
    StoreReply.Alike (α := α) (s.refuse d fault) (s'.refuse d' fault) where
  result := rfl
  left := alike

/-- Alike stores that run an action come to the same. -/
theorem perform {act : Action α} (alike : s.Alike d s' d') (steady : act.Steady) (now : Millis) :
    (s.perform now act d).Alike (s'.perform now act d') := by
  unfold Store.perform Store.withConnection
  rw [alike.poisoned]
  cases poisoned : s.poisoned with
  | true => exact alike.refuse _
  | false =>
    obtain ⟨closed, closed'⟩ | ⟨c, c', obstacle, a, ready, ready', serves, serves'⟩ := alike.state
    · rw [closed, closed']
      exact alike.refuse _
    · obtain ⟨result, left⟩ := serves.run steady now
      obtain ⟨result', left'⟩ := serves'.run steady now
      rw [ready, ready']
      exact {
        result := result'.trans result.symm
        left := {
          language := alike.language
          poisoned := by simp only [Store.useConnection, Bool.false_eq_true, if_false, result, result']
          state := .inr ⟨_, _, obstacle, _, rfl, rfl, left, left'⟩ } }

theorem close (alike : s.Alike d s' d') : (s.close d).Alike (s'.close d') := by
  have closed (disk disk' : Disk) : Store.Alike { s with state := .closed } disk
      { s' with state := .closed, poisoned := s.poisoned } disk' :=
    ⟨alike.language, rfl, .inl ⟨rfl, rfl⟩⟩
  simp only [Store.close, alike.poisoned]
  refine .ite (alike.refuse _) ?_
  obtain ⟨already, already'⟩ | ⟨c, c', -, -, ready, ready', -⟩ := alike.state
  · rw [already, already']
    exact ⟨rfl, closed _ _⟩
  · rw [ready, ready']
    exact ⟨rfl, closed _ _⟩

theorem isReady_eq (alike : s.Alike d s' d') : s'.isReady = s.isReady := by
  unfold Store.isReady
  rw [alike.poisoned]
  obtain ⟨closed, closed'⟩ | ⟨c, c', -, -, ready, ready', -⟩ := alike.state
  · rw [closed, closed']
  · rw [ready, ready']

/-- Stores that are alike answer alike, and stay alike. -/
theorem ask (alike : s.Alike d s' d') (now : Millis) (request : Request α) :
    (s.ask now request d).Alike (s'.ask now request d') := by
  cases request with
  | isReady =>
    refine ⟨?_, alike⟩
    simp only [Store.ask, alike.isReady_eq]
  | close => exact alike.close
  | modNamed name => exact alike.perform (Action.steady_inspect _) now
  | modWithRemoteId remoteId => exact alike.perform (Action.steady_inspect _) now
  | latestVersion modName => exact alike.perform (Action.steady_latestVersionNamed _) now
  | versions modName => exact alike.perform (Action.steady_versionSummariesNamed _) now
  | languageStats versionId => exact alike.perform (Action.steady_inspect _) now
  | entries modName path language => exact alike.perform (Action.steady_archivedEntries _ _ _) now
  | defaultEntries modName path =>
    simp only [Store.ask, Store.defaultEntries, alike.language]
    exact alike.perform (Action.steady_archivedEntries _ _ _) now
  | plan modName files language =>
    simp only [Store.ask, Store.plan]
    exact .ite ⟨rfl, alike⟩ (alike.perform (Action.steady_plan _ _ _) now)
  | ensureMod name remoteId =>
    simp only [Store.ask, Store.ensureMod]
    exact .ite (alike.refuse _) (alike.perform (Action.steady_ensureMod _ _) now)
  | snapshot modId files =>
    obtain ⟨result, left⟩ := alike.perform (Action.steady_snapshot modId files) now
    exact ⟨result, left⟩
  | archiveResults versionId results files language =>
    exact alike.perform (Action.steady_archiveAligned _ _ _ _) now
  | correct modName path corrections language =>
    exact alike.perform (Action.steady_correct _ _ _ _) now
  | archiveMerged merged remoteId =>
    simp only [Store.ask, Store.archiveMerged]
    exact .ite (alike.refuse _) (alike.perform (Action.steady_archiveMerged _ _) now)
  | adopt modName remoteId files renderings =>
    simp only [Store.ask, Store.adopt]
    exact .ite (alike.refuse _) (alike.perform (Action.steady_adopt _ _ _ _) now)
  | update modName remoteId files language translator =>
    simp only [Store.ask, Store.update]
    exact .ite (alike.refuse _) (alike.perform (Action.steady_update _ _ _ _ _) now)

/-- Stores that are alike give the same answers from then on. -/
theorem askAll (alike : s.Alike d s' d') (requests : List Asked) :
    s'.askAll requests d' = s.askAll requests d := by
  induction requests generalizing s d s' d' with
  | nil => rfl
  | cons asked r ih =>
    obtain ⟨result, left⟩ := alike.ask asked.now asked.request
    simp only [Store.askAll]
    rw [result, ih left]

end Store.Alike

end LocalizationMemory
