import LocalizationMemory.Proofs.Fingerprint
import LocalizationMemory.Proofs.Later

/-!
# Which snapshots share a version

A version is known by the fingerprint of its texts, of whatever mod it is, and its row
stays. So a snapshot of the same texts finds it ever after, in whatever order the files
are given and whatever their keys are called by then, and leaves no trace. Snapshots share
a version exactly if the joined texts of their files are the same, as far as the hash does
not collide.

## Main results

* `Archive.Consistent.versionId_eq_iff` — snapshots share a version exactly if their files
  have one fingerprint
* `Disk.Reached.finds_again` — a snapshot of the same texts, at any later time
* `contentBytes_blind` — a text that moves to the next entry changes no byte
* `changes_detected_iff` — what is told apart, and so gets versions of its own
-/

namespace LocalizationMemory

variable {a b before : Archive} {access : Access} {modId : RowId} {files files' : List SourceFile}
  {s : Snapshot}

namespace Archive

theorem versions_addVersion {now : Millis} (hb : a.addVersion modId files now = .ok (s, b)) :
    b.versions.rows = a.versions.rows ++ [⟨s.versionId, modId, snapshotHash files, now⟩] := by
  obtain ⟨c, d, hc, -, hd, rfl, rfl⟩ := addVersion_eq_ok_iff.mp hb
  obtain ⟨-, -, -, rfl⟩ := insertVersion_eq_ok_iff.mp hc
  rw [insertEntries_frame hd]
  rfl

/-- After a snapshot its version is found by the fingerprint of its files. -/
theorem Consistent.exists_version (hb : b.Consistent)
    (ends : (Action.snapshotChecked modId files).Ends access a s b) :
    ∃ v, b.versionByHash? (snapshotHash files) = some v ∧ v.id = s.versionId := by
  obtain ⟨-, ⟨v, hv, rfl, rfl⟩ | ⟨-, -, -, stored⟩⟩ := Action.ends_snapshotChecked_iff.mp ends
  · exact ⟨v, hv, rfl⟩
  · refine ⟨⟨s.versionId, modId, snapshotHash files, access.now⟩,
      hb.hashes.find?_eq_some_iff.mpr ⟨?_, rfl⟩, rfl⟩
    rw [versions_addVersion stored]
    exact List.mem_append_right _ List.mem_cons_self

/-- A snapshot comes to a version that is there exactly if its files have the fingerprint of the
version. -/
theorem Consistent.versionId_eq_iff (ha : a.Consistent) {v : VersionRow}
    (hv : v ∈ a.versions.rows) (ends : (Action.snapshotChecked modId files).Ends access a s b) :
    s.versionId = v.id ↔ snapshotHash files = v.hash := by
  obtain ⟨-, ⟨w, hw, rfl, -⟩ | ⟨new, -, -, stored⟩⟩ := Action.ends_snapshotChecked_iff.mp ends
  · have same : w.hash = snapshotHash files := by simpa using List.find?_some hw
    have mem := List.mem_of_find?_eq_some hw
    constructor
    · intro id
      rw [← same, ha.versions.unique.eq_of_key_eq mem hv id]
    · intro hash
      exact congrArg VersionRow.id (ha.hashes.eq_of_key_eq mem hv (same.trans hash))
  · -- A version that is stored is not the one that was there, and nor is its fingerprint.
    obtain ⟨-, newId, -⟩ := exists_newEntries_addVersion ha stored
    have older : v.id < s.versionId := newId ▸ ha.versions.lt_nextId hv
    have differs := List.find?_eq_none.mp new v hv
    constructor
    · intro id
      exact absurd id.symm (Int.ne_of_lt older)
    · intro hash
      exact absurd (by simp [hash]) differs

end Archive

section Later

variable {tick : Millis → Millis → Prop} {now : Millis} {d d' : Disk} {id : FileId}

/-- The version of a snapshot that left an archive on the disk is still found by its fingerprint,
at any later time. -/
theorem Disk.Reached.exists_version (h : Disk.Reached tick now d) (ha : d.archive? id = some a)
    (first : (Action.snapshotChecked modId files).Ends access before s a)
    (later : Disk.Later id d d') :
    ∃ b v, d'.archive? id = some b ∧ b.Consistent ∧ b.layout = .current ∧
      b.versionByHash? (snapshotHash files) = some v ∧ v.id = s.versionId := by
  have consistent : a.Consistent := Archive.Reached.isConsistent ⟨d, id, h, ha⟩
  obtain ⟨v, hv, same⟩ := consistent.exists_version first
  obtain ⟨b, hb, consistent', grows⟩ := h.continues later ha
  have tables : a.layout.hasTables = true := by
    rw [Action.snapshotChecked_frame first]
    exact (Action.ends_snapshotChecked_iff.mp first).1
  exact ⟨b, v, hb, consistent', grows.layout (consistent.layout_eq_current tables),
    grows.versionByHash? consistent' hv, same⟩

/-- Snapshots are idempotent, for good. Whatever was done since a snapshot of files succeeded, but
for another archive copied over that of its file, a snapshot of the same texts succeeds, finds the
version and leaves the archive as it is: for any mod, be it there or not, with the files in any
order and under any keys, and even without the right to write. -/
theorem Disk.Reached.finds_again (h : Disk.Reached tick now d) (ha : d.archive? id = some a)
    (distinct : (files.map (·.filename)).Nodup)
    (first : (Action.snapshotChecked modId files).Ends access before s a)
    (later : Disk.Later id d d') :
    ∃ b, d'.archive? id = some b ∧ ∀ modId' files',
      (files'.map (·.nameAndTexts)).Perm (files.map (·.nameAndTexts)) → ∀ access',
        (Action.snapshotChecked modId' files').Ends access' b ⟨s.versionId, false, 0⟩ b := by
  obtain ⟨b, v, hb, -, current, hv, same⟩ := h.exists_version ha first later
  refine ⟨b, hb, fun modId' files' perm access' => ?_⟩
  have hash : snapshotHash files' = snapshotHash files :=
    snapshotHash_eq_of_joinedText (joinedText_eq_of_perm distinct perm)
  exact Action.ends_snapshotChecked_iff.mpr
    ⟨Archive.hasTables_of_current current, .inl ⟨v, hash ▸ hv, same ▸ rfl, rfl⟩⟩

/-- Two keys change places and a file is put first, the snapshot having been taken by another mod:
the version is found again, after a further version and a rendering were stored. -/
theorem Disk.Reached.finds_again_of_renamed :
    ∃ d d' a before s b, Disk.Reached (· ≤ ·) 2 d ∧ d.archive? 0 = some a ∧
      (Action.snapshotChecked 1 [⟨"b.yml", [⟨"k", none⟩], ["X"]⟩,
        ⟨"a.yml", [⟨"k", none⟩, ⟨"j", none⟩], ["Y", "Z"]⟩]).Ends { now := 2 } before s a ∧
      s.created = true ∧ Disk.Later 0 d d' ∧ d'.archive? 0 = some b ∧ b ≠ a ∧
      (Action.snapshotChecked 7 [⟨"a.yml", [⟨"j", none⟩, ⟨"k", none⟩], ["Y", "Z"]⟩,
        ⟨"b.yml", [⟨"l", none⟩], ["X"]⟩]).Ends { now := 9, obstacle := some .held } b
          ⟨s.versionId, false, 0⟩ b := by
  let s : Store := { settings := {} }
  let files : List SourceFile := [⟨"b.yml", [⟨"k", none⟩], ["X"]⟩,
    ⟨"a.yml", [⟨"k", none⟩, ⟨"j", none⟩], ["Y", "Z"]⟩]
  let made : List Operation := [.ensureMod "Alpha" none]
  let ops : List Operation := .snapshot 1 files :: made
  let more : List Operation := [.putRenderings "ko" [(1, "ko:X")],
    .snapshot 1 [⟨"b.yml", [⟨"k", none⟩], ["W"]⟩]]
  have reached : Disk.Reached (· ≤ ·) 2 (s.operateAll ops) := s.reached_operateAll ops
  have later : Disk.Later 0 (s.operateAll ops) (s.operateAll (more ++ ops)) :=
    s.later_operateAll (fun _ ready => nomatch ready) ops more
  obtain ⟨before, -, a, ha, result, left⟩ : ∃ before ∈ (s.operateAll made).archive? 0,
      ∃ a ∈ (s.operateAll ops).archive? 0,
        (Action.snapshotChecked 1 files { now := 2 } before).result = .ok ⟨1, true, 3⟩ ∧
          (Action.snapshotChecked 1 files { now := 2 } before).archive = a := by decide +kernel
  have differs : (s.operateAll (more ++ ops)).archive? 0 ≠ (s.operateAll ops).archive? 0 := by
    decide +kernel
  obtain ⟨b, hb, again⟩ := reached.finds_again ha (by decide) ⟨result, left⟩ later
  refine ⟨_, _, a, before, _, b, reached, ha, ⟨result, left⟩, rfl, later, hb, ?_,
    again 7 _ (by decide) _⟩
  rintro rfl
  exact differs (hb.trans ha.symm)

end Later

/-! ### What is told apart -/

/-- Text that moves from one entry to the next changes no byte of what is hashed, and so the files
get the version of the former ones. -/
theorem contentBytes_blind :
    ∃ (files files' : List SourceFile) (a b c : Archive) (s s' : Snapshot),
      (files.map (·.filename)).Nodup ∧ (files'.map (·.filename)).Nodup ∧
      (sortedByName files).map (·.nameAndTexts) ≠ (sortedByName files').map (·.nameAndTexts) ∧
      contentBytes files = contentBytes files' ∧ a.Reached (· ≤ ·) 1 ∧
      (Action.snapshotChecked 1 files).Ends { now := 2 } a s b ∧
      (Action.snapshotChecked 1 files').Ends { now := 3 } b s' c ∧ s'.versionId = s.versionId := by
  let s : Store := { settings := {} }
  let ops : List Operation := [.ensureMod "Alpha" none]
  let files : List SourceFile := [⟨"a.yml", [⟨"k", none⟩, ⟨"l", none⟩], ["ab", "c"]⟩]
  let files' : List SourceFile := [⟨"a.yml", [⟨"k", none⟩, ⟨"l", none⟩], ["a", "bc"]⟩]
  obtain ⟨a, found, first, second⟩ : ∃ a ∈ (s.operateAll ops).archive? 0,
      (Action.snapshotChecked 1 files { now := 2 } a).result = .ok ⟨1, true, 2⟩ ∧
      (Action.snapshotChecked 1 files' { now := 3 }
        (Action.snapshotChecked 1 files { now := 2 } a).archive).result = .ok ⟨1, false, 0⟩ := by
    decide +kernel
  exact ⟨files, files', a, _, _, _, _, by decide, by decide, by decide, by decide,
    ⟨_, 0, s.reached_operateAll ops, found⟩, ⟨first, rfl⟩, ⟨second, rfl⟩, rfl⟩

/-- What is told apart. The bytes that are hashed differ exactly if the joined texts do, so every
edit of the joined text is noticed: texts that are changed, added or removed, unless they are the
same as before when joined. And if the hash does not collide on the bytes, a snapshot of other
files, at any later time, comes to another version exactly if their joined texts differ. -/
theorem changes_detected_iff :
    (∀ files files', contentBytes files ≠ contentBytes files' ↔ joinedText files ≠ joinedText files') ∧
    (∀ files files' front old new rest, orderedTexts files = front ++ old ++ rest →
      orderedTexts files' = front ++ new ++ rest → String.join old ≠ String.join new →
        contentBytes files ≠ contentBytes files') ∧
    ∀ (tick : Millis → Millis → Prop) (now : Millis) (d d' : Disk) (id : FileId) (a before : Archive)
      (access : Access) (modId : RowId) (files : List SourceFile) (s : Snapshot),
      Disk.Reached tick now d → d.archive? id = some a →
      (Action.snapshotChecked modId files).Ends access before s a → Disk.Later id d d' →
        ∃ b, d'.archive? id = some b ∧ ∀ files',
          (Sha256.digest (contentBytes files') = Sha256.digest (contentBytes files) →
            contentBytes files' = contentBytes files) →
          ∀ modId' access' s' c, (Action.snapshotChecked modId' files').Ends access' b s' c →
            (s'.versionId ≠ s.versionId ↔ joinedText files' ≠ joinedText files) := by
  refine ⟨fun _ _ => not_congr contentBytes_eq_iff, fun _ _ _ _ _ _ => contentBytes_ne_of_edit, ?_⟩
  intro tick now d d' id a before access modId files s h ha first later
  obtain ⟨b, v, hb, consistent, -, hv, same⟩ := h.exists_version ha first later
  have hash : v.hash = snapshotHash files := by simpa using List.find?_some hv
  refine ⟨b, hb, fun files' apart modId' access' s' c second => not_congr ?_⟩
  calc s'.versionId = s.versionId
      ↔ s'.versionId = v.id := by rw [same]
    _ ↔ snapshotHash files' = v.hash :=
        consistent.versionId_eq_iff (List.mem_of_find?_eq_some hv) second
    _ ↔ joinedText files' = joinedText files := by rw [hash, snapshotHash_eq_iff apart]

/-- A text is added at the end of the first of two files and comes before those of the second: the
bytes differ, and so do the versions. -/
theorem changes_detected_iff_of_added :
    ∃ (files files' : List SourceFile) (d : Disk) (a before b c : Archive) (s s' : Snapshot),
      contentBytes files ≠ contentBytes files' ∧ Disk.Reached (· ≤ ·) 2 d ∧
      d.archive? 0 = some a ∧ (Action.snapshotChecked 1 files).Ends { now := 2 } before s a ∧
      (Action.snapshotChecked 1 files').Ends { now := 3 } b s' c ∧ s'.versionId ≠ s.versionId := by
  let s : Store := { settings := {} }
  let files : List SourceFile := [⟨"b.yml", [⟨"k", none⟩], ["X"]⟩, ⟨"a.yml", [⟨"k", none⟩], ["Y"]⟩]
  let files' : List SourceFile :=
    [⟨"b.yml", [⟨"k", none⟩], ["X"]⟩, ⟨"a.yml", [⟨"k", none⟩, ⟨"l", none⟩], ["Y", "Z"]⟩]
  let made : List Operation := [.ensureMod "Alpha" none]
  let ops : List Operation := .snapshot 1 files :: made
  obtain ⟨before, -, a, ha, result, left, second⟩ : ∃ before ∈ (s.operateAll made).archive? 0,
      ∃ a ∈ (s.operateAll ops).archive? 0,
        (Action.snapshotChecked 1 files { now := 2 } before).result = .ok ⟨1, true, 2⟩ ∧
        (Action.snapshotChecked 1 files { now := 2 } before).archive = a ∧
        (Action.snapshotChecked 1 files' { now := 3 } a).result.isOk = true := by decide +kernel
  have reached : Disk.Reached (· ≤ ·) 2 (s.operateAll ops) := s.reached_operateAll ops
  obtain ⟨s', ends⟩ := Action.exists_ends_of_isOk second
  obtain ⟨bytes, edits, versions⟩ := changes_detected_iff
  obtain ⟨b, hb, apart⟩ := versions _ _ _ _ 0 a before _ _ files _ reached ha ⟨result, left⟩ .refl
  obtain rfl := Option.some.inj (ha.symm.trans hb)
  have edited : contentBytes files ≠ contentBytes files' :=
    edits files files' ["Y"] [] ["Z"] ["X"] (by decide) (by decide) (by decide)
  refine ⟨files, files', _, a, before, a, _, _, s', edited, reached, ha, ⟨result, left⟩, ends, ?_⟩
  refine (apart files' (by decide +kernel) 1 _ s' _ ends).mpr ?_
  exact (bytes files files').mp edited |>.symm

end LocalizationMemory
