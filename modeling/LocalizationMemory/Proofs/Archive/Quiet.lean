import LocalizationMemory.Proofs.Archive.Operation

/-!
# What actions say, and that they go on

An action on an archive knows nothing of the handle through which it is run. It never
reports that a connection was opened or closed, and no crash of its own leaves the lock
of the handle alone: only a translator crashes outside of it. An update is the one action
that asks a translator, and it crashes outside the lock exactly when it reports requests
on which the translator crashes. Then it has written nothing.

## Main definitions

* `Event.Quiet` — the event says nothing of connections and translators
* `Action.Quiet` — all reports of the action are quiet, and it never crashes outside the lock
* `Action.Speaks` — the action makes a statement on the archive

## Main results

* `Action.bind_cases` — what a chain of actions leaves
* `Action.Quiet.bind` — one quiet action after another
* `Action.quiet_archiveMerged`, `Action.quiet_adopt`, `Action.quiet_snapshot` and so on —
  what is asked of a store is quiet
* `Action.crashes_update_iff`, `Action.archive_of_crashes_update` — when an update crashes
  outside the lock, and what it leaves
-/

namespace LocalizationMemory

/-- The event says nothing of the connection of a handle, nor of a translator. -/
def Event.Quiet : Event → Prop
  | .connected _ | .disconnected _ | .translating _ _ => False
  | _ => True

/-- What is reported of files that are not aligned is quiet. -/
theorem quiet_misalignments {files : List SourceFile} : ∀ e ∈ misalignments files, e.Quiet := by
  intro e he
  obtain ⟨f, -, rfl⟩ := List.mem_map.mp he
  trivial

theorem quiet_resolutionEvents {versionId : RowId} {file rawKey : String}
    {found : Option Resolution} : ∀ e ∈ resolutionEvents versionId file rawKey found, e.Quiet := by
  intro e he
  cases found with
  | none =>
    obtain rfl := List.mem_singleton.mp he
    trivial
  | some r =>
    rw [resolutionEvents] at he
    split at he
    · cases he
    · obtain rfl := List.mem_singleton.mp he
      trivial

namespace Action

variable {α β : Type}

/-- A chain of actions comes to what the first leaves if that fails, and else to what both leave
one after the other. -/
theorem bind_cases (first : Action α) (second : α → Action β) (access : Access) (a : Archive) :
    (∃ failure, (first access a).result = .error failure ∧
        (first >>= second) access a = ⟨.error failure, (first access a).archive,
          (first access a).events, (first access a).trace⟩) ∨
      ∃ x b, first.Ends access a x b ∧
        (first >>= second) access a = ⟨(second x access b).result, (second x access b).archive,
          (first access a).events ++ (second x access b).events,
          (first access a).trace.andThen (second x access b).trace⟩ := by
  rcases ran : first access a with ⟨result, b, events, trace⟩
  cases result with
  | error failure => exact .inl ⟨failure, rfl, run_bind_of_error ran⟩
  | ok x => exact .inr ⟨x, b, by simp [Ends, ran], run_bind_of_ok ran⟩

/-- All that the action reports is quiet, and it never crashes outside the lock. -/
structure Quiet (act : Action α) : Prop where
  events : ∀ access a, ∀ e ∈ (act access a).events, e.Quiet
  goesOn : ∀ access a, (act access a).result ≠ .error .crash

theorem Quiet.bind {first : Action α} {second : α → Action β} (h : first.Quiet)
    (next : ∀ x, (second x).Quiet) : (first >>= second).Quiet where
  events access a e he := by
    obtain ⟨failure, -, ran⟩ | ⟨x, b, -, ran⟩ := bind_cases first second access a
    · rw [ran] at he
      exact h.events access a e he
    · rw [ran] at he
      exact (List.mem_append.mp he).elim (h.events access a e) ((next x).events access b e)
  goesOn access a := by
    obtain ⟨failure, failed, ran⟩ | ⟨x, b, -, ran⟩ := bind_cases first second access a
    · have went := h.goesOn access a
      rw [failed] at went
      rw [ran]
      simpa using went
    · rw [ran]
      exact (next x).goesOn access b

theorem quiet_pure (x : α) : (pure x : Action α).Quiet := ⟨by simp, by simp⟩

theorem quiet_report {event : Event} (quiet : event.Quiet) : (report event).Quiet where
  events access a e he := by
    obtain rfl := List.mem_singleton.mp he
    exact quiet
  goesOn _ _ := nofun

theorem quiet_reportAll {events : List Event} (quiet : ∀ e ∈ events, e.Quiet) :
    (reportAll events).Quiet := ⟨fun _ _ => quiet, fun _ _ => nofun⟩

theorem quiet_failWith (fault : Fault) : (failWith fault : Action α).Quiet :=
  ⟨fun _ _ _ => nofun, fun _ _ => nofun⟩

theorem quiet_inspect (f : Archive → Except DatabaseFault α) : (inspect f).Quiet where
  events access a e he := by
    rw [inspect] at he
    split at he <;> cases he
  goesOn access a := by
    rw [inspect]
    split <;> rintro ⟨⟩

theorem quiet_readFilesBy (first : Query) (queries : Archive → List Query) (table : TableName)
    (f : Archive → α) : (readFilesBy first queries table f).Quiet where
  events access a e he := by
    rw [readFilesBy] at he
    split at he <;> cases he
  goesOn access a := by
    rw [readFilesBy]
    split <;> rintro ⟨⟩

/-- A write is quiet unless what it tries crashes outside the lock. -/
theorem quiet_write {f : Access → Archive → Except Failure (α × Archive)}
    (goesOn : ∀ access a, f access a ≠ .error .crash) : (write f).Quiet where
  events access a e he := by
    rw [write] at he
    split at he
    · cases he
    · split at he <;> cases he
  goesOn access a := by
    rw [write]
    split
    · rintro ⟨⟩
    · split
      · rintro ⟨⟩
      · next failure tried =>
        intro crashed
        cases crashed
        exact goesOn access a tried

/-- A clock that cannot be told crashes under the lock. -/
theorem change_ne_crash {access : Access} {table : TableName}
    {f : Millis → Archive → Except DatabaseFault (α × Archive)} {a : Archive} :
    access.change table f a ≠ .error .crash := by
  rw [Access.change]
  split
  · rintro ⟨⟩
  · split
    · split
      · cases f access.now a <;> rintro ⟨⟩
      · rintro ⟨⟩
    · rintro ⟨⟩

theorem quiet_write_change {table : TableName}
    {f : Millis → Archive → Except DatabaseFault (α × Archive)} :
    (write (·.change table f)).Quiet :=
  quiet_write fun _ _ => change_ne_crash

/-! ### Reading -/

theorem quiet_resolve (versionId : RowId) (file rawKey : String) :
    (resolve versionId file rawKey).Quiet :=
  (quiet_readFilesBy _ _ _ _).bind fun _ =>
    (quiet_reportAll quiet_resolutionEvents).bind fun _ => quiet_pure _

theorem quiet_bindKeys (versionId : RowId) (filename : String)
    (pairs : List (KeyInfo × Option String)) : (bindKeys versionId filename pairs).Quiet := by
  induction pairs with
  | nil => exact quiet_pure _
  | cons p r ih =>
    obtain ⟨info, rendering⟩ := p
    cases rendering with
    | none => exact ih
    | some text =>
      refine Quiet.bind ((quiet_resolve _ _ _).bind fun found => ?_) fun _ =>
        ih.bind fun _ => quiet_pure _
      cases found <;> exact quiet_pure _

theorem quiet_bindFile (versionId : RowId) (files : List SourceFile) (filename : String)
    (renderings : List (Option String)) :
    (bindFile versionId files filename renderings).Quiet := by
  rw [bindFile]
  split
  · exact quiet_pure _
  · split
    · exact .bind (quiet_report trivial) fun _ => quiet_pure _
    · split
      · exact .bind (quiet_report trivial) fun _ => quiet_bindKeys _ _ _
      · exact quiet_bindKeys _ _ _

theorem quiet_bindResults (versionId : RowId) (files : List SourceFile)
    (results : List (String × List (Option String))) :
    (bindResults versionId files results).Quiet := by
  induction results with
  | nil => exact quiet_pure _
  | cons p r ih => exact (quiet_bindFile _ _ _ _).bind fun _ => ih.bind fun _ => quiet_pure _

theorem quiet_latestVersionNamed (modName : String) : (latestVersionNamed modName).Quiet := by
  apply Quiet.bind (quiet_inspect _)
  intro found
  cases found with
  | none => exact quiet_pure _
  | some m => exact quiet_inspect _

theorem quiet_versionSummariesNamed (modName : String) :
    (versionSummariesNamed modName).Quiet := by
  apply Quiet.bind (quiet_inspect _)
  intro found
  cases found with
  | none => exact quiet_pure _
  | some m => exact quiet_inspect _

theorem quiet_archivedEntries (modName path language : String) :
    (archivedEntries modName path language).Quiet := by
  apply Quiet.bind (quiet_latestVersionNamed _)
  intro found
  cases found with
  | none => exact quiet_pure _
  | some v => exact quiet_readFilesBy _ _ _ _

theorem quiet_classifyAll (modName language : String) (files : List SourceFile) :
    (classifyAll modName language files).Quiet := by
  induction files with
  | nil => exact quiet_pure _
  | cons file r ih =>
    exact (quiet_archivedEntries _ _ _).bind fun _ => ih.bind fun _ => quiet_pure _

theorem quiet_plan (modName : String) (files : List SourceFile) (language : String) :
    (plan modName files language).Quiet :=
  (quiet_classifyAll _ _ _).bind fun _ => .bind (quiet_report trivial) fun _ => quiet_pure _

/-! ### Writing -/

theorem quiet_ensureMod (name : String) (remoteId : Option String) :
    (ensureMod name remoteId).Quiet := by
  apply Quiet.bind (quiet_inspect _)
  intro found
  cases found with
  | some m => exact quiet_pure _
  | none =>
    exact quiet_write_change.bind fun _ => .bind (quiet_report trivial) fun _ => quiet_pure _

theorem quiet_ensureNamedMod (name : String) (remoteId : Option String) :
    (ensureNamedMod name remoteId).Quiet := by
  rw [ensureNamedMod]
  split
  · exact quiet_failWith _
  · exact quiet_ensureMod name remoteId

theorem quiet_snapshot (modId : RowId) (files : List SourceFile) :
    (snapshot modId files).Quiet := by
  apply Quiet.bind (quiet_inspect _)
  intro found
  cases found with
  | some v => exact .bind (quiet_report trivial) fun _ => quiet_pure _
  | none =>
    refine (quiet_write fun access a => ?_).bind fun s => ?_
    · split
      · rintro ⟨⟩
      · exact change_ne_crash
    · split
      · exact .bind (quiet_report trivial) fun _ =>
          .bind (quiet_report trivial) fun _ => quiet_pure _
      · exact quiet_pure _

theorem quiet_snapshotChecked (modId : RowId) (files : List SourceFile) :
    (snapshotChecked modId files).Quiet :=
  (quiet_reportAll quiet_misalignments).bind fun _ => quiet_snapshot modId files

theorem quiet_putRenderings (language : String) (rows : List EntryRendering) :
    (putRenderings language rows).Quiet := by
  rw [putRenderings]
  split
  · exact quiet_pure _
  · exact quiet_write_change

theorem quiet_correct (modName path : String) (corrections : List Correction)
    (language : String) : (correct modName path corrections language).Quiet := by
  apply Quiet.bind (quiet_latestVersionNamed _)
  intro found
  cases found with
  | none => exact quiet_pure _
  | some v => exact (quiet_readFilesBy _ _ _ _).bind fun _ => quiet_putRenderings _ _

theorem quiet_archiveAligned (versionId : RowId) (results : AlignedResults)
    (files : List SourceFile) (language : String) :
    (archiveAligned versionId results files language).Quiet := by
  refine (quiet_bindResults _ _ _).bind fun b => (quiet_putRenderings _ _).bind fun archived => ?_
  dsimp only
  split
  · exact .bind (quiet_report trivial) fun _ => .bind (quiet_report trivial) fun _ => quiet_pure _
  · exact .bind (quiet_report trivial) fun _ => quiet_pure _

theorem quiet_archiveMerged (merged : MergedSet) (remoteId : Option String) :
    (archiveMerged merged remoteId).Quiet :=
  (quiet_ensureNamedMod _ _).bind fun _ => (quiet_snapshotChecked _ _).bind fun _ =>
    (quiet_archiveAligned _ _ _ _).bind fun _ => quiet_pure _

theorem quiet_archiveLanguages (versionId : RowId) (files : List SourceFile)
    (results : List (String × AlignedResults)) (done : Dict ArchiveReport) :
    (archiveLanguages versionId files results done).Quiet := by
  induction results generalizing done with
  | nil => exact quiet_pure _
  | cons p r ih =>
    rw [archiveLanguages]
    split
    · exact ih done
    · exact (quiet_archiveAligned _ _ _ _).bind fun _ => ih _

theorem quiet_adopt (modName : String) (remoteId : Option String) (files : List SourceFile)
    (renderings : List RenderingFile) : (adopt modName remoteId files renderings).Quiet := by
  refine (quiet_ensureNamedMod _ _).bind fun _ => (quiet_snapshotChecked _ _).bind fun _ => ?_
  dsimp only
  split
  · exact .bind (quiet_report trivial) fun _ => quiet_pure _
  · exact (quiet_archiveLanguages _ _ _ _).bind fun _ =>
      .bind (quiet_report trivial) fun _ => quiet_pure _

/-! ### Asking a translator -/

/-- Apart from requests for a language all that the action reports is quiet, and it crashes
outside the lock exactly when the translator crashes on requests that were reported. -/
structure Asks (language : String) (translator : Translator) (act : Action α) : Prop where
  said : ∀ access a, ∀ e ∈ (act access a).events,
    e.Quiet ∨ ∃ requests, e = .translating language requests
  crashes : ∀ access a, (act access a).result = .error .crash ↔
    ∃ requests, .translating language requests ∈ (act access a).events ∧
      translator language requests = .crashed

variable {language : String} {translator : Translator}

/-- What is quiet asks nobody. -/
theorem Quiet.asks {act : Action α} (quiet : act.Quiet) : act.Asks language translator where
  said access a e he := .inl (quiet.events access a e he)
  crashes access a := by
    constructor
    · exact fun crashed => absurd crashed (quiet.goesOn access a)
    · rintro ⟨requests, told, -⟩
      exact (quiet.events access a _ told).elim

theorem Asks.bind {first : Action α} {second : α → Action β} (h : first.Asks language translator)
    (next : ∀ access a x b, first.Ends access a x b → (second x).Asks language translator) :
    (first >>= second).Asks language translator where
  said access a e he := by
    obtain ⟨failure, -, ran⟩ | ⟨x, b, ends, ran⟩ := bind_cases first second access a
    · rw [ran] at he
      exact h.said access a e he
    · rw [ran] at he
      exact (List.mem_append.mp he).elim (h.said access a e)
        ((next access a x b ends).said access b e)
  crashes access a := by
    have crashes := h.crashes access a
    obtain ⟨failure, failed, ran⟩ | ⟨x, b, ends, ran⟩ := bind_cases first second access a
    · rw [failed] at crashes
      rw [ran]
      simpa using crashes
    · -- The first part ended, so the translator did not crash on what that reported.
      rw [ends.1] at crashes
      rw [ran, (next access a x b ends).crashes access b]
      constructor
      · exact fun ⟨requests, told, crashed⟩ => ⟨requests, List.mem_append_right _ told, crashed⟩
      · rintro ⟨requests, told, crashed⟩
        obtain told | told := List.mem_append.mp told
        · exact nomatch crashes.mpr ⟨requests, told, crashed⟩
        · exact ⟨requests, told, crashed⟩

theorem asks_translate (plan : Plan) :
    (Action.translate plan translator).Asks plan.language translator := by
  rw [Action.translate]
  split
  · exact (quiet_pure _).asks
  · constructor
    · intro access a e he
      refine .inr ⟨plan.requests, ?_⟩
      cases answer : translator plan.language plan.requests <;>
        simpa [answer, Bind.bind, andThen, report, fail, failWith, pure, done] using he
    · intro access a
      cases answer : translator plan.language plan.requests <;>
        simp [answer, Bind.bind, andThen, report, fail, failWith, pure, done]

/-- An update crashes outside the lock exactly when it reports requests on which the translator
crashes. -/
theorem asks_update (modName : String) (remoteId : Option String) (files : List SourceFile) :
    (update modName remoteId files language translator).Asks language translator := by
  rw [update]
  split
  · exact (quiet_failWith _).asks
  · refine (quiet_plan _ _ _).asks.bind fun access a p b planned => ?_
    obtain rfl : p.language = language := by
      simp only [plan, ends_bind_iff, ends_pure_iff] at planned
      obtain ⟨plans, c, -, -, d, -, rfl, -⟩ := planned
      rfl
    refine (asks_translate p).bind fun _ _ _ _ _ => Quiet.asks ?_
    exact (quiet_archiveMerged _ _).bind fun _ =>
      .bind (quiet_report trivial) fun _ => quiet_pure _

/-- An update that crashes outside the lock has written nothing. -/
theorem archive_of_crashes_update {modName : String} {remoteId : Option String}
    {files : List SourceFile} {access : Access} {a : Archive}
    (crashed : (update modName remoteId files language translator access a).result =
      .error .crash) :
    (update modName remoteId files language translator access a).archive = a := by
  have fails : (update modName remoteId files language translator).Fails access a .crash _ :=
    ⟨crashed, rfl⟩
  generalize (update modName remoteId files language translator access a).archive = left at fails ⊢
  rw [update] at fails
  split at fails
  · exact absurd fails.1 ((quiet_failWith _).goesOn _ _)
  · obtain fails | ⟨p, b, planned, fails⟩ := fails_bind_iff.mp fails
    · exact (reads_plan _ _ _).archive_of_fails fails
    · obtain rfl : a = b := (reads_plan _ _ _ access a).symm.trans planned.2
      obtain fails | ⟨results, c, -, fails⟩ := fails_bind_iff.mp fails
      · exact (reads_translate _ _).archive_of_fails fails
      · -- What follows the answers crashes under the lock if at all.
        refine absurd fails.1 (Quiet.goesOn ?_ access c)
        exact (quiet_archiveMerged _ _).bind fun _ =>
          .bind (quiet_report trivial) fun _ => quiet_pure _

/-! ### Statements -/

/-- The action makes a statement on the archive, whatever comes of it. -/
def Speaks (act : Action α) : Prop := ∀ access a, (act access a).trace.verdict.isSome = true

theorem Speaks.bind {first : Action α} (speaks : first.Speaks) (second : α → Action β) :
    (first >>= second).Speaks := by
  intro access a
  have said := speaks access a
  obtain ⟨failure, -, ran⟩ | ⟨x, b, -, ran⟩ := bind_cases first second access a
  · rw [ran]
    exact said
  · rw [ran]
    simp [Trace.andThen, said]

theorem speaks_inspect (f : Archive → Except DatabaseFault α) : (inspect f).Speaks := by
  intro access a
  rw [inspect]
  split <;> rfl

/-- An update of some files looks the mod of the first of them up. -/
theorem speaks_update {modName : String} {remoteId : Option String} {files : List SourceFile}
    (nonempty : files ≠ []) : (update modName remoteId files language translator).Speaks := by
  cases files with
  | nil => exact absurd rfl nonempty
  | cons file r =>
    have first : (archivedEntries modName file.filename language).Speaks :=
      ((speaks_inspect _).bind _).bind _
    exact ((first.bind _).bind _).bind _

end Action

end LocalizationMemory
