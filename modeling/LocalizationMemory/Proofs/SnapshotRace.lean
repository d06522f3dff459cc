import LocalizationMemory.Proofs.Archive.Growth
import LocalizationMemory.Proofs.Archive.Resolution
import LocalizationMemory.Proofs.Linearization
import LocalizationMemory.Proofs.Reachability

/-!
# Snapshots that race

Any number of connections may take snapshots at once, of any mods and files, each looking
its hash up first and storing the version under the right to write. However their steps
are mixed, there is one version for a hash; all who ask for it are given its id; and if
it was not there before, one of them stored it, with the entries of its own files.

## Main definitions

* `Archive.StoredFor` — a version with its entries, as a snapshot of files stores it

## Main results

* `Attempt.careful_snapshot` — a snapshot looks again under the right to write
* `Serial.exists_creator` — of snapshots of one hash that was not there the first that
  succeeds stores it
* `Race.snapshots_linearizable` — snapshots that race
-/

namespace LocalizationMemory

open Archive

variable {a b : Archive} {access : Access} {modId : RowId} {files : List SourceFile}

/-! ### One snapshot -/

namespace Action

/-- A report on misaligned files changes nothing about how a snapshot ends. -/
theorem ends_snapshotChecked_iff_snapshot {s : Snapshot} :
    (snapshotChecked modId files).Ends access a s b ↔ (snapshot modId files).Ends access a s b := by
  simp [snapshotChecked]

/-- A snapshot fails, finds the version of its hash, or stores it. -/
theorem snapshot_cases (modId : RowId) (files : List SourceFile) (access : Access) (a : Archive) :
    (∃ failure, (snapshot modId files).Fails access a failure a) ∨
    (∃ v, a.versionByHash? (snapshotHash files) = some v ∧
      (snapshot modId files).Ends access a ⟨v.id, false, 0⟩ a) ∨
    (a.versionByHash? (snapshotHash files) = none ∧ ∃ s b,
      a.addVersion modId files access.now = .ok (s, b) ∧
        (snapshot modId files).Ends access a s b) := by
  cases result : (snapshot modId files access a).result with
  | error failure =>
    have fails : (snapshot modId files).Fails access a failure _ := ⟨result, rfl⟩
    rw [archive_of_fails_snapshot fails] at fails
    exact .inl ⟨failure, fails⟩
  | ok s =>
    have ends : (snapshot modId files).Ends access a s _ := ⟨result, rfl⟩
    obtain ⟨-, ⟨v, hv, rfl, left⟩ | ⟨new, -, -, stored⟩⟩ :=
      ends_snapshotChecked_iff.mp (ends_snapshotChecked_iff_snapshot.mpr ends)
    · rw [left] at ends
      exact .inr (.inl ⟨v, hv, ends⟩)
    · exact .inr (.inr ⟨new, s, _, stored, ends⟩)

end Action

/-- A snapshot looks again under the right to write. -/
theorem Attempt.careful_snapshot (modId : RowId) (files : List SourceFile) :
    (Attempt.snapshot modId files).Careful := by
  have looked (access : Access) (a : Archive) :
      ((Attempt.snapshot modId files).lookUp access a).result =
        if a.layout.hasTables then
          .ok ((a.versionByHash? (snapshotHash files)).map fun v => ⟨v.id, false, 0⟩)
        else .error (.database (.noSuchTable .sourceVersions)) := by
    cases tables : a.layout.hasTables with
    | false =>
      simp [Attempt.snapshot, bind, Action.andThen, Action.run_versionWithHash, tables]
    | true =>
      cases found : a.versionByHash? (snapshotHash files) <;>
        simp [Attempt.snapshot, bind, Action.andThen, Action.run_versionWithHash, tables, found,
          Action.report, pure, Action.done]
  have reads := Action.reads_lookUp_snapshot modId files
  exact
    { reads
      steady := fun access access' a => by rw [looked, looked]
      tables := fun access a missed => by
        rw [looked] at missed
        cases tables : a.layout.hasTables with
        | true => rfl
        | false => simp [tables] at missed
      locked := fun access a held => by
        refine Action.fails_bind_iff.mpr (.inl ?_)
        exact Action.fails_write_iff.mpr ⟨rfl, .inl ⟨held, rfl⟩⟩
      again := fun access a tables free => by
        cases found : a.versionByHash? (snapshotHash files) with
        | none =>
          have missed : ((Attempt.snapshot modId files).lookUp access a).result = .ok none := by
            simp [looked, tables, found]
          exact (atOnce_of_missed missed reads).imp Eq.symm Eq.symm
        | some v =>
          have hit : ((Attempt.snapshot modId files).lookUp access a).result =
              .ok (some ⟨v.id, false, 0⟩) := by
            simp [looked, tables, found]
          -- The write finds the version just the same.
          have written : (Action.commitVersion modId files).Ends access a ⟨v.id, false, 0⟩ a := by
            refine Action.ends_bind_iff.mpr ⟨⟨v.id, false, 0⟩, a, ?_, by simp⟩
            exact Action.ends_write_iff.mpr ⟨free, by simp [found]⟩
          obtain ⟨result, left⟩ := atOnce_of_found hit reads
          exact ⟨written.1.trans result.symm, written.2.trans left.symm⟩
      keepsTables := fun access a tables => by
        have moves : (Action.snapshot modId files).Moves
            (fun a b => a.layout.hasTables = true → b.layout.hasTables = true) access := by
          refine Action.moves_snapshot (fun _ h => h) (fun _ _ _ hab hbc h => hbc (hab h)) ?_
          intro a s b hb h
          rw [addVersion_frame hb]
          exact h
        rw [atOnce_snapshot]
        exact moves a tables }

/-! ### The version that is stored -/

/-- The archive has the version that a snapshot of files stored and reported, with the first line
of every key as its entries. -/
structure Archive.StoredFor (a : Archive) (modId : RowId) (files : List SourceFile) (now : Millis)
    (s : Snapshot) : Prop where
  created : s.created = true
  version : a.versionWithId? s.versionId = some ⟨s.versionId, modId, snapshotHash files, now⟩
  contents : (a.entriesOf s.versionId).map (·.content) =
    (distinctLines (sourceLines files)).map (·.content)
  written : s.entriesWritten = (a.entriesOf s.versionId).length

namespace Archive

theorem storedFor_of_addVersion (ha : a.Consistent) {now : Millis} {s : Snapshot}
    (hb : a.addVersion modId files now = .ok (s, b)) : b.StoredFor modId files now s := by
  obtain ⟨created, newId, -, versions, ⟨new, news, rows, written⟩, -⟩ :=
    exists_newEntries_addVersion ha hb
  have entries : b.entriesOf s.versionId = new :=
    news.entriesOf rows fun e he => newId ▸ ha.versionId_ne_nextId he
  refine ⟨created, ?_, by rw [entries, news.contents], by rw [entries, written]⟩
  refine (versionWithId?_eq_some_iff (ha.addVersion hb)).mpr ⟨?_, rfl⟩
  rw [versions]
  exact List.mem_append_right _ List.mem_cons_self

namespace StoredFor

variable {now : Millis} {s : Snapshot}

theorem grows (h : a.StoredFor modId files now s) (ha : a.Consistent) (grows : a.Grows b)
    (hb : b.Consistent) : b.StoredFor modId files now s := by
  have mem := ((versionWithId?_eq_some_iff ha).mp h.version).1
  have same := grows.snapshots _ mem
  refine ⟨h.created, grows.versionWithId? hb mem, ?_, ?_⟩
  · rw [same]
    exact h.contents
  · rw [same]
    exact h.written

theorem versionByHash? (h : a.StoredFor modId files now s) (ha : a.Consistent) :
    a.versionByHash? (snapshotHash files) =
      some ⟨s.versionId, modId, snapshotHash files, now⟩ :=
  ha.hashes.find?_eq_some_iff.mpr ⟨((versionWithId?_eq_some_iff ha).mp h.version).1, rfl⟩

/-- The entries of a file are the first lines of its keys. -/
theorem map_content_entriesOfFile (h : a.StoredFor modId files now s)
    (names : (files.map (·.filename)).Nodup) {f : SourceFile} (hf : f ∈ files) :
    (a.entriesOfFile s.versionId f.filename).map (·.content) =
      (distinctLines f.lines).map (·.content) := by
  have ofKeys (l l' : SourceLine) (file : l.file = l'.file) (_ : l.key = l'.key) :
      (l.file == f.filename) = (l'.file == f.filename) := by rw [file]
  rw [map_content_entriesOfFile_of_lines h.contents, ← distinctLines_filter ofKeys,
    sourceLines_eq_flatMap, ProperFiles.filter_flatMap_lines names hf]

/-- If every file has a name, every entry names a file. -/
theorem named (h : a.StoredFor modId files now s) (nonempty : ∀ f ∈ files, f.filename ≠ "") :
    a.Named s.versionId := by
  intro e he
  have mem : e.content ∈ (distinctLines (sourceLines files)).map (·.content) :=
    h.contents ▸ List.mem_map_of_mem he
  obtain ⟨line, hline, same⟩ := List.mem_map.mp mem
  obtain ⟨f, hf, hl⟩ := mem_sourceLines_iff.mp ((distinctLines_sublist _).subset hline)
  obtain ⟨file, -, -⟩ := EntryRow.content_eq_iff.mp same.symm
  rw [file, file_of_mem_lines hl]
  exact ⟨Option.some_ne_none _, fun empty => nonempty f hf (Option.some.inj empty)⟩

end StoredFor

end Archive

/-! ### Snapshots one after the other -/

namespace Serial

variable {ι : Type} {modOf : ι → RowId} {filesOf : ι → List SourceFile}
  {turns : List (Turn ι Snapshot)} {hash : String}

theorem continues (h : Serial (fun i => Action.snapshot (modOf i) (filesOf i)) a turns b) :
    a.Continues b := by
  have writes (now : Millis) := (Continues.lasting now).writes
  exact h.moves (writes 0).refl (writes 0).trans fun i access =>
    (writes access.now).moves_snapshot (modOf i) (filesOf i)

/-- All snapshots of the hash of a version find it. -/
theorem result_of_known (h : Serial (fun i => Action.snapshot (modOf i) (filesOf i)) a turns b)
    (ha : a.Consistent) {v : VersionRow} (known : a.versionByHash? hash = some v) :
    ∀ t ∈ turns, snapshotHash (filesOf t.call) = hash → ∀ s, t.result = .ok s →
      s = ⟨v.id, false, 0⟩ := by
  induction h with
  | done a => simp
  | @turn a _ t rest result others ih =>
    have step := (Continues.lasting t.access.now).writes.moves_snapshot (modOf t.call)
      (filesOf t.call) a ha
    refine List.forall_mem_cons.mpr ⟨?_, ih step.1 (step.2.versionByHash? step.1 known)⟩
    rintro rfl s hs
    obtain ⟨failure, fails⟩ | ⟨w, hw, ends⟩ | ⟨new, -⟩ :=
      Action.snapshot_cases (modOf t.call) (filesOf t.call) t.access a
    · cases (fails.1.symm.trans result).trans hs
    · obtain rfl := Option.some.inj (hw.symm.trans known)
      exact Except.ok.inj (hs.symm.trans (result.symm.trans ends.1))
    · cases new.symm.trans known

/-- Of the snapshots of a hash in some turns that succeed one stored the version, and the others
found it. -/
structure CreatedBy (modOf : ι → RowId) (filesOf : ι → List SourceFile) (hash : String)
    (turns : List (Turn ι Snapshot)) (b : Archive) (w : Turn ι Snapshot) (s : Snapshot) :
    Prop where
  mem : w ∈ turns
  own : snapshotHash (filesOf w.call) = hash
  result : w.result = .ok s
  stored : b.StoredFor (modOf w.call) (filesOf w.call) w.access.now s
  others : ∀ t ∈ turns, snapshotHash (filesOf t.call) = hash → ∀ u, t.result = .ok u →
    t = w ∨ u = ⟨s.versionId, false, 0⟩

namespace CreatedBy

variable {t w : Turn ι Snapshot} {s u : Snapshot}

theorem cons (h : CreatedBy modOf filesOf hash turns b w s)
    (fruitless : snapshotHash (filesOf t.call) = hash → ∀ u, t.result ≠ .ok u) :
    CreatedBy modOf filesOf hash (t :: turns) b w s where
  mem := List.mem_cons_of_mem _ h.mem
  own := h.own
  result := h.result
  stored := h.stored
  others := List.forall_mem_cons.mpr ⟨fun own u hu => absurd hu (fruitless own u), h.others⟩

/-- All are given the id of the version. -/
theorem versionId_eq (h : CreatedBy modOf filesOf hash turns b w s) (ht : t ∈ turns)
    (own : snapshotHash (filesOf t.call) = hash) (hu : t.result = .ok u) :
    u.versionId = s.versionId := by
  obtain rfl | rfl := h.others t ht own u hu
  · rw [Except.ok.inj (hu.symm.trans h.result)]
  · rfl

end CreatedBy

/-- Of the snapshots of a hash that is not there the first that succeeds stores the version, and
the others find it. -/
theorem exists_creator (h : Serial (fun i => Action.snapshot (modOf i) (filesOf i)) a turns b)
    (ha : a.Consistent) (new : a.versionByHash? hash = none) :
    (∀ t ∈ turns, snapshotHash (filesOf t.call) = hash → ∀ s, t.result ≠ .ok s) ∨
      ∃ w s, CreatedBy modOf filesOf hash turns b w s := by
  induction h with
  | done a => simp
  | @turn a b t rest result others ih =>
    have step := (Continues.lasting t.access.now).writes.moves_snapshot (modOf t.call)
      (filesOf t.call) a ha
    obtain ⟨failure, fails⟩ | ⟨v, hv, ends⟩ | ⟨-, s, c, hc, ends⟩ :=
      Action.snapshot_cases (modOf t.call) (filesOf t.call) t.access a
    · have fruitless (s : Snapshot) : t.result ≠ .ok s := by
        intro hs
        cases (fails.1.symm.trans result).trans hs
      rw [fails.2] at ih
      exact (ih ha new).imp (fun none => List.forall_mem_cons.mpr ⟨fun _ => fruitless, none⟩)
        fun ⟨w, s, created⟩ => ⟨w, s, created.cons fun _ => fruitless⟩
    · have other : snapshotHash (filesOf t.call) ≠ hash := by
        rintro rfl
        cases new.symm.trans hv
      rw [ends.2] at ih
      exact (ih ha new).imp
        (fun none => List.forall_mem_cons.mpr ⟨fun own => absurd own other, none⟩)
        fun ⟨w, s, created⟩ => ⟨w, s, created.cons fun own => absurd own other⟩
    · rw [ends.2] at step others ih
      by_cases own : snapshotHash (filesOf t.call) = hash
      · -- The version is stored here, and found by all snapshots of the hash that come later.
        have stored := storedFor_of_addVersion ha hc
        have known := stored.versionByHash? step.1
        rw [own] at known
        have later := others.continues step.1
        refine .inr ⟨t, s, List.mem_cons_self, own, result.symm.trans ends.1,
          stored.grows step.1 later.2 later.1, ?_⟩
        refine List.forall_mem_cons.mpr ⟨fun _ _ _ => .inl rfl, fun u hu same r hr => .inr ?_⟩
        exact others.result_of_known step.1 known u hu same r hr
      · have still : c.versionByHash? hash = none := by
          obtain ⟨-, -, -, versions, -⟩ := exists_newEntries_addVersion ha hc
          rw [Archive.versionByHash?] at new ⊢
          simp [versions, new, own]
        exact (ih step.1 still).imp
          (fun none => List.forall_mem_cons.mpr ⟨fun same => absurd same own, none⟩)
          fun ⟨w, s, created⟩ => ⟨w, s, created.cons fun same => absurd same own⟩

end Serial

/-! ### Snapshots at once -/

variable {ι : Type} [DecidableEq ι]

/-- Snapshots that race, by any number of connections and with their steps in any order. There is
one version for a hash, and all snapshots of the hash that succeed are given its id. If there was
none before, one of them stored it, with the entries of its own files, and the others found it.
And all of it, the counters of ids included, is as if they were taken in turns, of which those
that failed can be left out. -/
theorem Race.snapshots_linearizable (modOf : ι → RowId) (filesOf : ι → List SourceFile)
    (ha : a.Consistent) (schedule : List (ι × Access)) :
    let r := (Race.start a).run (fun i => Attempt.snapshot (modOf i) (filesOf i)) schedule
    r.archive.versions.Unique (·.hash) ∧
    (∀ i j access access' s t, snapshotHash (filesOf i) = snapshotHash (filesOf j) →
      r.progress i = .ended access (.ok s) → r.progress j = .ended access' (.ok t) →
        s.versionId = t.versionId) ∧
    (∀ i access s, r.progress i = .ended access (.ok s) →
      a.versionByHash? (snapshotHash (filesOf i)) = none →
        ∃ w access t, snapshotHash (filesOf w) = snapshotHash (filesOf i) ∧
          r.progress w = .ended access (.ok t) ∧
          r.archive.StoredFor (modOf w) (filesOf w) access.now t ∧
          ∀ j access u, j ≠ w → snapshotHash (filesOf j) = snapshotHash (filesOf i) →
            r.progress j = .ended access (.ok u) → u = ⟨t.versionId, false, 0⟩) ∧
    ∃ turns, Linearizes (fun i => Action.snapshot (modOf i) (filesOf i)) a schedule r turns ∧
      Serial (fun i => Action.snapshot (modOf i) (filesOf i)) a
        (turns.filter (·.result.isOk)) r.archive := by
  intro r
  obtain ⟨turns, line⟩ := exists_linearizes
    (fun i => Attempt.careful_snapshot (modOf i) (filesOf i)) a schedule
  simp only [Attempt.atOnce_snapshot] at line
  have mem {i : ι} {access : Access} {s : Snapshot} (h : r.progress i = .ended access (.ok s)) :
      (⟨i, access, .ok s⟩ : Turn ι Snapshot) ∈ turns := (line.ended _).mpr h
  have consistent := (line.serial.continues ha).1
  refine ⟨consistent.hashes, ?_, ?_, turns, line, ?_⟩
  · intro i j access access' s t same hs ht
    cases known : a.versionByHash? (snapshotHash (filesOf j)) with
    | some v =>
      have found := line.serial.result_of_known ha known
      rw [found _ (mem hs) same s rfl, found _ (mem ht) rfl t rfl]
    | none =>
      obtain none | ⟨w, u, created⟩ := line.serial.exists_creator ha known
      · exact absurd rfl (none _ (mem ht) rfl t)
      · rw [created.versionId_eq (mem hs) same rfl, created.versionId_eq (mem ht) rfl rfl]
  · intro i access s hs new
    obtain none | ⟨⟨w, access', result⟩, t, hw, own, rfl, stored, found⟩ :=
      line.serial.exists_creator ha new
    · exact absurd rfl (none _ (mem hs) rfl s)
    · refine ⟨w, access', t, own, (line.ended _).mp hw, stored, ?_⟩
      intro j access'' u different same hu
      obtain eq | eq := found _ (mem hu) same u rfl
      · exact absurd (congrArg Turn.call eq) different
      · exact eq
  · exact line.serial.filter_isOk fun i access a failure b => Action.archive_of_fails_snapshot

/-- Two snapshots of one text under different keys, and one of a mod that is not there, look up
before the second writes: the first finds the version of the second, the last fails. -/
theorem Race.snapshots_linearizable_of_renamed :
    ∃ a : Archive, a.Consistent ∧
      let modOf : Fin 3 → RowId := fun i => if i = 2 then 2 else 1
      let filesOf : Fin 3 → List SourceFile := fun i =>
        [⟨"a.yml", [⟨if i = 1 then "j" else "k", none⟩], [if i = 2 then "Z" else "X"]⟩]
      let schedule : List (Fin 3 × Access) := [(0, { now := 2 }), (1, { now := 2 }),
        (2, { now := 2 }), (1, { now := 3 }), (0, { now := 4 }), (2, { now := 4 })]
      let r := (Race.start a).run (fun i => Attempt.snapshot (modOf i) (filesOf i)) schedule
      a.versionByHash? (snapshotHash (filesOf 0)) = none ∧
        r.progress 2 = .ended { now := 4 } (.error (.database .danglingReference)) ∧
        r.archive.versions.Unique (·.hash) ∧
        (∃ s t, r.progress 0 = .ended { now := 4 } (.ok s) ∧
          r.progress 1 = .ended { now := 3 } (.ok t) ∧ s.versionId = t.versionId) ∧
        (∃ w access t, snapshotHash (filesOf w) = snapshotHash (filesOf 0) ∧
          r.progress w = .ended access (.ok t) ∧
            r.archive.StoredFor (modOf w) (filesOf w) access.now t) ∧
        ∃ turns, Race.Linearizes (fun i => Action.snapshot (modOf i) (filesOf i)) a schedule r
          turns := by
  let s : Store := { settings := {} }
  let modOf : Fin 3 → RowId := fun i => if i = 2 then 2 else 1
  let filesOf : Fin 3 → List SourceFile := fun i =>
    [⟨"a.yml", [⟨if i = 1 then "j" else "k", none⟩], [if i = 2 then "Z" else "X"]⟩]
  let schedule : List (Fin 3 × Access) := [(0, { now := 2 }), (1, { now := 2 }),
    (2, { now := 2 }), (1, { now := 3 }), (0, { now := 4 }), (2, { now := 4 })]
  let race (a : Archive) : Race (Fin 3) Snapshot :=
    (Race.start a).run (fun i => Attempt.snapshot (modOf i) (filesOf i)) schedule
  obtain ⟨a, found, new, second, first, failed⟩ :
      ∃ a ∈ (s.operateAll [.ensureMod "Alpha" none]).archive? 0,
        a.versionByHash? (snapshotHash (filesOf 0)) = none ∧
        (race a).progress 0 = .ended { now := 4 } (.ok ⟨1, false, 0⟩) ∧
        (race a).progress 1 = .ended { now := 3 } (.ok ⟨1, true, 1⟩) ∧
        (race a).progress 2 = .ended { now := 4 } (.error (.database .danglingReference)) := by
    decide +kernel
  have consistent : a.Consistent :=
    Archive.Reached.isConsistent ⟨_, 0, s.reached_operateAll [.ensureMod "Alpha" none], found⟩
  obtain ⟨unique, same, created, turns, line, -⟩ :=
    Race.snapshots_linearizable modOf filesOf consistent schedule
  obtain ⟨w, access, t, own, hw, stored, -⟩ := created 0 _ _ second new
  exact ⟨a, consistent, new, failed, unique,
    ⟨_, _, second, first, same 0 1 _ _ _ _ (by decide +kernel) second first⟩,
    ⟨w, access, t, own, hw, stored⟩, turns, line⟩

end LocalizationMemory
