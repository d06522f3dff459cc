import LocalizationMemory.Proofs.Archive.Growth
import LocalizationMemory.Proofs.Reachability
import LocalizationMemory.Proofs.Update
import LocalizationMemory.Update.Writes

/-!
# What a failed update leaves

An update writes in three transactions. One that fails is taken back as a whole, and those
before it stay: a new mod if its version is not stored, and a new version if its
renderings are not. So an update that fails before its second write leaves no trace, and
none stores a rendering. If no version stays, comparing the same files again comes to the
same plan.

## Main definitions

* `Archive.ModReady` — a mod is there or was made
* `Archive.LeftBy` — what stays of an update that failed after a write

## Main results

* `Action.leftBy_of_fails_archiveMergedBy` — which writes stay, and what stopped the next one
* `Archive.planOf_addMod` — a new mod changes nothing about what an update finds
* `Archive.LeftBy.refused` — with one access for all writes it takes a rule to leave a trace
* `Action.traces_of_fails_update` — what a failed update leaves
* `Action.update_leaves_version` — a version stays, and its texts are not requested again
-/

namespace LocalizationMemory

variable {access : Access} {a b c : Archive} {w : WriteAccesses} {merged : MergedSet}
  {modName language : String} {remoteId : Option String} {files : List SourceFile}
  {failure : Failure}

/-- The mod of a name has this id, be it that it was there or that it was made. -/
def Archive.ModReady (a : Archive) (access : Access) (name : String) (remoteId : Option String)
    (id : RowId) (b : Archive) : Prop :=
  (∃ m, a.mod? name = some m ∧ id = m.id ∧ b = a) ∨
    a.mod? name = none ∧ access.CanWrite ∧ a.addMod name remoteId access.now = .ok (id, b)

/-- What stays of an update that failed after a write. -/
inductive Archive.LeftBy (a : Archive) (w : WriteAccesses) (merged : MergedSet)
    (remoteId : Option String) (failure : Failure) : Archive → Prop
  /-- The mod was made, but its version or its renderings could not be stored. -/
  | mod {id : RowId} {b : Archive} (new : a.mod? merged.modName = none)
      (free : w.mod.CanWrite) (made : a.addMod merged.modName remoteId w.mod.now = .ok (id, b))
      (stops : a.Stops w.snapshot [.sourceVersions, .sourceEntries] failure ∨
        a.Stops w.renderings [.translatedEntries] failure) : LeftBy a w merged remoteId failure b
  /-- The version was stored, be its mod new or not, but its renderings could not be. -/
  | version {id : RowId} {s : Snapshot} {b c : Archive}
      (ready : a.ModReady w.mod merged.modName remoteId id c)
      (new : a.versionByHash? (snapshotHash merged.sourceFiles) = none)
      (free : w.snapshot.CanWrite)
      (stored : c.addVersion id merged.sourceFiles w.snapshot.now = .ok (s, b))
      (stops : a.Stops w.renderings [.translatedEntries] failure) :
      LeftBy a w merged remoteId failure b

namespace Archive.ModReady

variable {name : String} {id : RowId}

theorem frame (ready : a.ModReady access name remoteId id b) :
    b = { a with mods := b.mods, aliases := b.aliases } := by
  obtain ⟨-, -, -, rfl⟩ | ⟨new, -, made⟩ := ready
  · rfl
  · exact (addedMod_of_addMod new made).frame

theorem isConsistent (ready : a.ModReady access name remoteId id b) (ha : a.Consistent) :
    b.Consistent := by
  obtain ⟨-, -, -, rfl⟩ | ⟨-, -, made⟩ := ready
  · exact ha
  · exact ha.addMod made

theorem of_ends_ensureNamedMod (ends : (Action.ensureNamedMod name remoteId).Ends access a id b) :
    a.ModReady access name remoteId id b := by
  obtain ⟨-, -, found | ⟨new, early, free, made⟩⟩ := Action.ends_ensureNamedMod_iff.mp ends
  · exact .inl found
  · exact .inr ⟨new, ⟨early, free⟩, made⟩

/-- If the next write fails, the mod stays in case it was made. -/
theorem eq_or_leftBy (ready : a.ModReady w.mod merged.modName remoteId id b)
    (stops : a.Stops w.snapshot [.sourceVersions, .sourceEntries] failure ∨
      a.Stops w.renderings [.translatedEntries] failure) :
    b = a ∨ a.LeftBy w merged remoteId failure b :=
  ready.imp (fun ⟨_, _, _, same⟩ => same) fun ⟨new, free, made⟩ => .mod new free made stops

end Archive.ModReady

/-! ### Which writes stay -/

namespace Action

/-- A merged set that is not archived leaves the archive as it was, or what was written before
the write that failed. -/
theorem leftBy_of_fails_archiveMergedBy (current : a.layout = .current)
    (fails : (archiveMergedBy w merged remoteId).Fails access a failure b) :
    b = a ∨ a.LeftBy w merged remoteId failure b := by
  rw [archiveMergedBy, fails_bind_iff] at fails
  obtain fails | ⟨id, c, first, fails⟩ := fails
  · exact .inl (archive_of_fails_ensureNamedMod fails)
  have ready := Archive.ModReady.of_ends_ensureNamedMod first
  obtain ⟨⟨m, hm, id_eq⟩, frame⟩ := ensureNamedMod_frame first
  have rules : a.rules = c.rules := by rw [frame]
  have versions : a.versions = c.versions := by rw [frame]
  have currentc : c.layout = .current := by
    rw [frame]
    exact current
  rw [fails_bind_iff] at fails
  obtain fails | ⟨s, d, second, fails⟩ := fails
  · obtain ⟨rfl, stops⟩ :=
      fails_snapshotChecked currentc ⟨m, List.mem_of_find?_eq_some hm, id_eq⟩ fails
    exact ready.eq_or_leftBy (.inl (stops.congr rules))
  rw [fails_bind_iff] at fails
  obtain fails | ⟨r, e, -, fails⟩ := fails
  · obtain ⟨-, ⟨v, -, -, rfl⟩ | ⟨new, early, free, stored⟩⟩ := ends_snapshotChecked_iff.mp second
    · obtain ⟨rfl, stops⟩ := fails_archiveAligned currentc fails
      exact ready.eq_or_leftBy (.inr (stops.congr rules))
    · have framed := Archive.addVersion_frame stored
      have currentd : d.layout = .current := by
        rw [framed]
        exact currentc
      obtain ⟨rfl, stops⟩ := fails_archiveAligned currentd fails
      have rulesd : a.rules = b.rules := by
        rw [framed]
        exact rules
      have newa : a.versionByHash? (snapshotHash merged.sourceFiles) = none := by
        rw [Archive.versionByHash?, versions]
        exact new
      exact .inr (.version ready newa ⟨early, free⟩ stored (stops.congr rulesd))
  · exact absurd fails not_fails_pure

/-- An update fails without a trace, or when its merged files are archived. -/
theorem fails_updateBy_cases (ha : a.Consistent) {translator : Translator}
    (fails : (updateBy w modName remoteId files language translator).Fails access a failure b) :
    b = a ∨ a.layout = .current ∧
      ∃ results, (a.planOf modName language files).Answered translator results ∧
        (archiveMergedBy w ((a.planOf modName language files).merge results) remoteId).Fails
          access a failure b := by
  rw [updateBy] at fails
  split at fails
  · exact .inl (fails_fail_iff.mp fails).2
  · next nonempty =>
    rw [fails_bind_iff] at fails
    obtain fails | ⟨p, c, planned, fails⟩ := fails
    · exact .inl ((reads_plan _ _ _).archive_of_fails fails)
    · obtain ⟨current, rfl, rfl⟩ := (ends_plan_iff ha).mp planned
      rw [fails_bind_iff] at fails
      obtain fails | ⟨results, d, answered, fails⟩ := fails
      · exact .inl ((reads_translate _ _).archive_of_fails fails)
      · obtain ⟨answered, rfl⟩ := ends_translate_iff.mp answered
        refine .inr ⟨current (by simpa using nonempty), results, answered, ?_⟩
        obtain fails | ⟨⟨versionId, archive⟩, e, -, fails⟩ := fails_bind_iff.mp fails
        · exact fails
        · -- After the writes there is only a report.
          simp [fails_bind_iff] at fails

end Action

/-! ### What an update finds afterwards -/

namespace Archive

/-- A mod that was just made has no version to compare with, and before it there was none. -/
theorem archivedEntries_addMod (ha : a.Consistent) {id : RowId} {now : Millis}
    (new : a.mod? modName = none) (hb : a.addMod modName remoteId now = .ok (id, b))
    (path language : String) :
    b.archivedEntries modName path language = a.archivedEntries modName path language := by
  have added := addedMod_of_addMod new hb
  have versions : b.versions = a.versions := by rw [added.frame]
  have found := added.mod? new
  have none : b.latestVersion? id = none := by
    have own : b.versions.rows.filter (·.modId == id) = [] := by
      rw [versions]
      apply List.filter_eq_nil_iff.mpr
      intro v hv same
      obtain ⟨m, hm, id_eq⟩ := List.mem_map.mp (ha.modOfVersion v hv)
      -- The mod of the version would be the new one, which was not there.
      have mem : m ∈ b.mods.rows := by
        rw [added.mods]
        exact List.mem_append_left _ hm
      have eq : m = ⟨id, modName, now⟩ := (ha.addMod hb).mods.unique.eq_of_key_eq mem
        (List.mem_of_find?_eq_some found) (id_eq.trans (eq_of_beq same))
      have absent := List.find?_eq_none.mp new m hm
      exact absent (by simp [eq])
    simp [latestVersion?, versionsOf, own, sortBy]
  simp [archivedEntries, latestVersionNamed?, new, found, none]

theorem planOf_addMod (ha : a.Consistent) {id : RowId} {now : Millis}
    (new : a.mod? modName = none) (hb : a.addMod modName remoteId now = .ok (id, b)) :
    b.planOf modName language files = a.planOf modName language files := by
  simp [planOf, archivedEntries_addMod ha new hb]

/-- If no version stays, an update finds what it found before. -/
theorem LeftBy.planOf_eq (ha : a.Consistent) (left : a.LeftBy w merged remoteId failure b)
    (same : b.versions = a.versions) :
    b.layout = a.layout ∧
      b.planOf merged.modName language files = a.planOf merged.modName language files := by
  cases left with
  | mod new free made stops =>
    have frame := (addedMod_of_addMod new made).frame
    exact ⟨by rw [frame], planOf_addMod ha new made⟩
  | @version id s b c ready new free stored stops =>
    obtain ⟨-, -, -, rows, -⟩ := exists_newEntries_addVersion (ready.isConsistent ha) stored
    have kept : c.versions = a.versions := by rw [ready.frame]
    rw [same, kept] at rows
    simp at rows

theorem LeftBy.isConsistent (ha : a.Consistent) (left : a.LeftBy w merged remoteId failure b) :
    b.Consistent := by
  cases left with
  | mod new free made stops => exact ha.addMod made
  | version ready new free stored stops => exact (ready.isConsistent ha).addVersion stored

/-- No rendering stays. -/
theorem LeftBy.renderings_eq (left : a.LeftBy w merged remoteId failure b) :
    b.renderings = a.renderings := by
  cases left with
  | mod new free made stops => rw [(addedMod_of_addMod new made).frame]
  | version ready new free stored stops => rw [addVersion_frame stored, ready.frame]

/-- If the writes have the same access, only a rule stops one after another. -/
theorem LeftBy.refused (left : a.LeftBy access.forAll merged remoteId failure b) :
    ∃ table ∈ [TableName.sourceVersions, .sourceEntries, .translatedEntries],
      ∃ fault, a.Refuses table fault ∧ failure = .database fault := by
  cases left with
  | mod new free made stops =>
    obtain stops | stops := stops
    · exact (stops.mono (by simp)).refused free
    · exact (stops.mono (by simp)).refused free
  | version ready new free stored stops => exact (stops.mono (by simp)).refused free

end Archive

/-! ### Failed updates -/

namespace Action

open Archive

theorem leftBy_of_fails_updateBy (ha : a.Consistent) {translator : Translator}
    (fails : (updateBy w modName remoteId files language translator).Fails access a failure b) :
    b = a ∨ ∃ results, (a.planOf modName language files).Answered translator results ∧
      a.LeftBy w ((a.planOf modName language files).merge results) remoteId failure b := by
  obtain same | ⟨current, results, answered, fails⟩ := fails_updateBy_cases ha fails
  · exact .inl same
  · exact (leftBy_of_fails_archiveMergedBy current fails).imp_right
      fun left => ⟨results, answered, left⟩

/-- Without a rule a failed update leaves no trace. -/
theorem archive_of_fails_update (ha : a.Consistent) (rules : a.rules = []) {translator : Translator}
    (fails : (update modName remoteId files language translator).Fails access a failure b) :
    b = a := by
  rw [Fails, ← updateBy_forAll] at fails
  obtain same | ⟨results, -, left⟩ := leftBy_of_fails_updateBy ha fails
  · exact same
  · obtain ⟨table, -, fault, ⟨r, hr, -⟩, -⟩ := left.refused
    rw [rules] at hr
    cases hr

/-- A failed update stores no rendering, and nothing at all but what it wrote as a whole before
the write that failed. With one access for all writes that takes a rule that refuses an insert.
And unless a version stays, comparing the files again comes to the same plan, whatever rules
there are then, so that all that was requested is requested again. -/
theorem traces_of_fails_update (ha : a.Consistent) {translator : Translator}
    (fails : (updateBy w modName remoteId files language translator).Fails access a failure b) :
    b.renderings = a.renderings ∧
    (b = a ∨ ∃ results, (a.planOf modName language files).Answered translator results ∧
      a.LeftBy w ((a.planOf modName language files).merge results) remoteId failure b) ∧
    (∀ own : Access, w = own.forAll → b = a ∨
      ∃ table ∈ [TableName.sourceVersions, .sourceEntries, .translatedEntries],
        ∃ fault, a.Refuses table fault ∧ failure = .database fault) ∧
    (b.versions = a.versions → ∀ rules access' p,
      (plan modName files language).Ends access' { b with rules } p { b with rules } ↔
        (plan modName files language).Ends access' a p a) := by
  have left := leftBy_of_fails_updateBy ha fails
  refine ⟨?_, left, ?_, ?_⟩
  · obtain rfl | ⟨results, -, left⟩ := left
    · rfl
    · exact left.renderings_eq
  · rintro own rfl
    exact left.imp_right fun ⟨_, _, left⟩ => left.refused
  · intro same rules access' p
    obtain ⟨hb, layout, found⟩ : b.Consistent ∧ b.layout = a.layout ∧
        b.planOf modName language files = a.planOf modName language files := by
      obtain rfl | ⟨results, -, left⟩ := left
      · exact ⟨ha, rfl, rfl⟩
      · exact ⟨left.isConsistent ha, left.planOf_eq ha same⟩
    have kept : Archive.planOf { b with rules } modName language files =
        b.planOf modName language files := rfl
    rw [ends_plan_iff (hb.withRules rules), ends_plan_iff ha, kept, layout, found]
    simp

/-- The second entry of a new mod is refused: the mod stays, and the next comparison finds both
texts to be new as before. -/
theorem traces_of_fails_update_of_refused_entry :
    ∃ a b p, a.Reached (· ≤ ·) 1 ∧
      (updateBy ({ now := 2 } : Access).forAll "Alpha" (some "42")
        [⟨"a.yml", [⟨"k", none⟩, ⟨"l", none⟩], ["X", "Y"]⟩] "ko" (.rendering ("ko:" ++ ·))).Fails
          { now := 2 } a (.database (.refused "full")) b ∧
      b.mods ≠ a.mods ∧ b.aliases ≠ a.aliases ∧ b.versions = a.versions ∧
      b.renderings = a.renderings ∧
      (plan "Alpha" [⟨"a.yml", [⟨"k", none⟩, ⟨"l", none⟩], ["X", "Y"]⟩] "ko").Ends
        { now := 3 } { b with rules := [] } p { b with rules := [] } ∧
      p.requests.map (·.texts) = [["X", "Y"]] := by
  let s : Store := { settings := {} }
  let ops : List Operation := [.refuseInserts ⟨.sourceEntries, 1, "full"⟩]
  let files : List SourceFile := [⟨"a.yml", [⟨"k", none⟩, ⟨"l", none⟩], ["X", "Y"]⟩]
  let call := updateBy ({ now := 2 } : Access).forAll "Alpha" (some "42") files "ko"
    (.rendering ("ko:" ++ ·))
  obtain ⟨a, found, failed, mods, aliases, versions, ends, requests⟩ :
      ∃ a ∈ (s.operateAll ops).archive? 0,
        (call { now := 2 } a).result = .error (.database (.refused "full")) ∧
        (call { now := 2 } a).archive.mods ≠ a.mods ∧
        (call { now := 2 } a).archive.aliases ≠ a.aliases ∧
        (call { now := 2 } a).archive.versions = a.versions ∧
        (plan "Alpha" files "ko" { now := 3 } a).result.isOk = true ∧
        ∀ p ∈ (plan "Alpha" files "ko" { now := 3 } a).result.toOption,
          p.requests.map (·.texts) = [["X", "Y"]] := by
    decide +kernel
  have reached : a.Reached (· ≤ ·) 1 := ⟨_, 0, s.reached_operateAll ops, found⟩
  obtain ⟨p, planned⟩ := exists_ends_of_isOk ends
  rw [reads_plan] at planned
  obtain ⟨renderings, -, -, again⟩ := traces_of_fails_update reached.isConsistent ⟨failed, rfl⟩
  refine ⟨a, _, p, reached, ⟨failed, rfl⟩, mods, aliases, versions, renderings,
    (again versions [] _ p).mpr planned, requests p ?_⟩
  rw [planned.1]
  rfl

/-- A rendering is refused: the mod, its version and the entry stay, and once the rule is gone
the same update takes the entry to be unchanged, and writes its source text without asking for
a rendering. -/
theorem update_leaves_version :
    ∃ a b outcome c, a.Reached (· ≤ ·) 1 ∧
      (update "Alpha" none [⟨"a.yml", [⟨"k", none⟩], ["X"]⟩] "ko" (.rendering ("ko:" ++ ·))).Fails
        { now := 2 } a (.database (.refused "full")) b ∧
      b.mods ≠ a.mods ∧ b.versions ≠ a.versions ∧ b.entries ≠ a.entries ∧
      (update "Alpha" none [⟨"a.yml", [⟨"k", none⟩], ["X"]⟩] "ko" fun _ _ => .failed "offline").Ends
        { now := 3 } { b with rules := [] } outcome c ∧
      outcome.files = [⟨"a.yml", [⟨"k", "X", none, none⟩]⟩] ∧ c.renderings.rows ≠ [] := by
  let s : Store := { settings := {} }
  let ops : List Operation := [.refuseInserts ⟨.translatedEntries, 0, "full"⟩]
  let call := update "Alpha" none [⟨"a.yml", [⟨"k", none⟩], ["X"]⟩] "ko"
  let first := call (.rendering ("ko:" ++ ·))
  let next (a : Archive) := call (fun _ _ => .failed "offline") { now := 3 }
    { (first { now := 2 } a).archive with rules := [] }
  obtain ⟨a, found, failed, mods, versions, entries, ends, written, stored⟩ :
      ∃ a ∈ (s.operateAll ops).archive? 0,
        (first { now := 2 } a).result = .error (.database (.refused "full")) ∧
        (first { now := 2 } a).archive.mods ≠ a.mods ∧
        (first { now := 2 } a).archive.versions ≠ a.versions ∧
        (first { now := 2 } a).archive.entries ≠ a.entries ∧
        (next a).result.isOk = true ∧
        (∀ outcome ∈ (next a).result.toOption,
          outcome.files = [⟨"a.yml", [⟨"k", "X", none, none⟩]⟩]) ∧
        (next a).archive.renderings.rows ≠ [] := by
    decide +kernel
  obtain ⟨outcome, ends⟩ := exists_ends_of_isOk ends
  refine ⟨a, _, outcome, _, ⟨_, 0, s.reached_operateAll ops, found⟩, ⟨failed, rfl⟩, mods, versions,
    entries, ends, written outcome ?_, stored⟩
  rw [ends.1]
  rfl

end Action

end LocalizationMemory
