import LocalizationMemory.Proofs.Archive.Archiving
import LocalizationMemory.Proofs.Deduplication
import LocalizationMemory.Proofs.Failure

/-!
# How far a call for a mod reaches

What is done for a mod is confined to it but for one thing. A snapshot may come to a version
of another mod, since versions are found by their texts alone, and renderings are then
stored for entries of that version. So other mods gain and lose no version and no entry,
and of their renderings only some of one language can be touched, all of entries of such a
version.

## Main definitions

* `Archive.Confined` — what is done concerns one mod, but for the renderings of some entries
* `Archive.Means` — a key of files means an entry of a version
* `Archive.Shares` — the entries that files of another mod reach, by the language

## Main results

* `Archive.confined_snapshotChecked`, `Archive.confined_archiveAligned`,
  `Archive.confined_archiveMergedBy` — what the calls for a mod reach, failed or not
* `Archive.Confined.latestVersionNamed?`, `Archive.Confined.versionSummaries` — what stays as
  it is for other mods
* `Archive.Confined.lastRendering?` — which renderings do
-/

namespace LocalizationMemory.Archive

variable {a b c d : Archive} {modName other language file key : String} {m : ModRow}
  {touched touched' : String → EntryRow → Prop} {files keyed : List SourceFile} {s : Snapshot}
  {access : Access} {e : EntryRow}

/-- What was done concerns the mod of a name: other mods are as they were, versions are new for
the mod alone, and renderings differ for touched entries at most. -/
structure Confined (a : Archive) (modName : String) (touched : String → EntryRow → Prop)
    (b : Archive) : Prop where
  consistent : b.Consistent
  grows : a.Grows b
  mods : ∀ other ≠ modName, (b.mod? other).map (·.id) = (a.mod? other).map (·.id)
  versions : ∃ new, b.versions.rows = a.versions.rows ++ new ∧
    ∀ v ∈ new, ∃ m, b.mod? modName = some m ∧ m.id = v.modId
  renderings : ∀ e ∈ a.entries.rows, ∀ t : RenderingRow, t.entryId = e.id →
    ¬ touched t.language e → (t ∈ b.renderings.rows ↔ t ∈ a.renderings.rows)

namespace Confined

theorem refl (ha : a.Consistent) : a.Confined modName touched a where
  consistent := ha
  grows := .refl a
  mods _ _ := rfl
  versions := ⟨[], by simp⟩
  renderings _ _ _ _ _ := Iff.rfl

theorem trans (first : a.Confined modName touched b) (second : b.Confined modName touched c) :
    a.Confined modName touched c where
  consistent := second.consistent
  grows := first.grows.trans second.grows
  mods other differs := (second.mods other differs).trans (first.mods other differs)
  versions := by
    obtain ⟨new, rows, own⟩ := first.versions
    obtain ⟨new', rows', own'⟩ := second.versions
    refine ⟨new ++ new', by rw [rows', rows, List.append_assoc], ?_⟩
    intro v hv
    rcases List.mem_append.mp hv with hv | hv
    · obtain ⟨m, hm, id⟩ := own v hv
      obtain ⟨m', hm', same⟩ := second.grows.mod? second.consistent hm
      exact ⟨m', hm', same.trans id⟩
    · exact own' v hv
  renderings e he t entry untouched :=
    (second.renderings e (first.grows.entries.subset he) t entry untouched).trans
      (first.renderings e he t entry untouched)

theorem mono (h : a.Confined modName touched b)
    (fewer : ∀ e ∈ a.entries.rows, ∀ language, touched language e → touched' language e) :
    a.Confined modName touched' b :=
  { h with
    renderings := fun e he t entry untouched =>
      h.renderings e he t entry fun reached => untouched (fewer e he _ reached) }

end Confined

/-! ### What stays as it is for other mods -/

namespace Confined

section Other

variable (confined : a.Confined modName touched b) (differs : other ≠ modName)

include confined differs

/-- Other mods have the versions that they had. -/
theorem versionsOf (hm : a.mod? other = some m) : b.versionsOf m.id = a.versionsOf m.id := by
  obtain ⟨new, rows, own⟩ := confined.versions
  have none : new.filter (·.modId == m.id) = [] := by
    apply List.filter_eq_nil_iff.mpr
    intro v hv same
    obtain ⟨n, hn, id⟩ := own v hv
    obtain ⟨m', hm', id'⟩ := confined.grows.mod? confined.consistent hm
    -- The mod of the version would have both names.
    have eq : n = m' := confined.consistent.mods.unique.eq_of_key_eq (List.mem_of_find?_eq_some hn)
      (List.mem_of_find?_eq_some hm') (id.trans ((eq_of_beq same).trans id'.symm))
    have name : n.name = modName := by simpa using List.find?_some hn
    have name' : m'.name = other := by simpa using List.find?_some hm'
    exact differs (name'.symm.trans (eq ▸ name))
  rw [Archive.versionsOf, rows, List.filter_append, none, List.append_nil]
  rfl

theorem mod?_cases :
    (a.mod? other = none ∧ b.mod? other = none) ∨
      ∃ m m', a.mod? other = some m ∧ b.mod? other = some m' ∧ m'.id = m.id := by
  have same := confined.mods other differs
  cases hm : a.mod? other with
  | none =>
    rw [hm] at same
    exact .inl ⟨rfl, Option.map_eq_none_iff.mp same⟩
  | some m =>
    rw [hm] at same
    obtain ⟨m', hm', id⟩ := Option.map_eq_some_iff.mp same
    exact .inr ⟨m, m', rfl, hm', id⟩

theorem latestVersionNamed? : b.latestVersionNamed? other = a.latestVersionNamed? other := by
  obtain ⟨old, new⟩ | ⟨m, m', old, new, id⟩ := confined.mod?_cases differs
  · rw [Archive.latestVersionNamed?, Archive.latestVersionNamed?, old, new]
    rfl
  · have same := confined.versionsOf differs old
    rw [Archive.latestVersionNamed?, Archive.latestVersionNamed?, old, new, Option.bind_some,
      Option.bind_some, latestVersion?, latestVersion?, id, same]

theorem versionSummaries (hm : a.mod? other = some m) :
    b.versionSummaries m.id = a.versionSummaries m.id := by
  rw [Archive.versionSummaries, Archive.versionSummaries, confined.versionsOf differs hm]
  apply List.map_congr_left
  intro v hv
  have mem : v ∈ a.versions.rows := List.mem_of_mem_filter (mem_sortBy.mp hv)
  exact confined.grows.versionSummary mem

variable (ha : a.Consistent)

include ha

/-- What is in a file of another mod was there before. -/
theorem inFile_iff (hm : a.mod? other = some m) :
    b.InFile m.id file e ↔ a.InFile m.id file e := by
  constructor
  · intro later
    obtain ⟨v, hv, id, ofMod⟩ := later.version
    -- The version of the entry is one of the mod, so it is old, and its entries are.
    have listed : v ∈ a.versionsOf m.id := by
      rw [← confined.versionsOf differs hm]
      exact mem_sortBy.mpr (List.mem_filter.mpr ⟨hv, beq_iff_eq.mpr ofMod⟩)
    have old : v ∈ a.versions.rows := List.mem_of_mem_filter (mem_sortBy.mp listed)
    have mem : e ∈ a.entriesOf v.id := by
      rw [← confined.grows.snapshots v old]
      exact mem_entriesOf_iff.mpr ⟨later.mem, id.symm⟩
    exact confined.grows.inFile_of_mem ha confined.consistent (mem_entriesOf_iff.mp mem).1 later
  · exact confined.grows.inFile

/-- A key of another mod has the rendering that it had, unless one of its entries is touched. -/
theorem lastRendering? (hm : a.mod? other = some m)
    (untouched : ∀ e, a.InFile m.id file e → e.key = key → ¬ touched language e) :
    Archive.lastRendering? (b.renderingHistory m.id file language) key =
      Archive.lastRendering? (a.renderingHistory m.id file language) key := by
  have same (t : RenderingRow) (e : EntryRow) (he : a.InFile m.id file e) (hkey : e.key = key)
      (entry : e.id = t.entryId) (into : t.language = language) :
      t ∈ b.renderings.rows ↔ t ∈ a.renderings.rows :=
    confined.renderings e he.mem t entry.symm (into.symm ▸ untouched e he hkey)
  refine (lastRendering?_congr ha confined.consistent fun t => ⟨fun ht => ?_, fun ht => ?_⟩).symm
  · obtain ⟨e, he, hkey, entry⟩ := ht.entry
    exact ⟨(same t e he hkey entry ht.into).mpr ht.mem, ht.into, e,
      (confined.inFile_iff differs ha hm).mpr he, hkey, entry⟩
  · obtain ⟨e, later, hkey, entry⟩ := ht.entry
    have he := (confined.inFile_iff differs ha hm).mp later
    exact ⟨(same t e he hkey entry ht.into).mp ht.mem, ht.into, e, he, hkey, entry⟩

end Other

end Confined

/-! ### The writes -/

theorem ModReady.confined {remoteId : Option String} {id : RowId}
    (ready : a.ModReady access modName remoteId id b) (ha : a.Consistent) :
    a.Confined modName touched b := by
  have consistent := ready.isConsistent ha
  obtain ⟨-, -, -, rfl⟩ | ⟨new, -, made⟩ := ready
  · exact .refl ha
  · have added := addedMod_of_addMod new made
    exact
      { consistent
        grows := .addMod made
        mods := fun other differs => by rw [added.mod?_of_ne differs]
        versions := ⟨[], by rw [added.frame, List.append_nil], by simp⟩
        renderings := fun e _ t _ _ => by rw [added.frame] }

theorem confined_addVersion {now : Millis} (ha : a.Consistent) (hm : a.mod? modName = some m)
    (hb : a.addVersion m.id files now = .ok (s, b)) : a.Confined modName touched b := by
  have frame := addVersion_frame hb
  have grows := Grows.addVersion ha hb
  have consistent := ha.addVersion hb
  obtain ⟨-, -, -, rows, -, touch⟩ := exists_newEntries_addVersion ha hb
  exact
    { consistent
      grows
      mods := fun other _ => map_id_mod?_of_touched (by rw [touch]) other
      versions := by
        refine ⟨_, rows, fun v hv => ?_⟩
        obtain rfl := List.mem_singleton.mp hv
        exact grows.mod? consistent hm
      renderings := fun e _ t _ _ => by rw [frame] }

theorem confined_putRenderings {now : Millis} {rows : List EntryRendering} (ha : a.Consistent)
    (hb : putRenderings language now rows a = .ok b) :
    a.Confined modName (fun l e => l = language ∧ boundText? rows e.id ≠ none) b := by
  have frame := putRenderings_frame hb
  exact
    { consistent := ha.putRenderings hb
      grows := .putRenderings hb
      mods := fun other _ => by rw [frame]; rfl
      versions := ⟨[], by rw [frame, List.append_nil], by simp⟩
      renderings := by
        intro e _ t entry untouched
        have unbound : t.language = language → boundText? rows t.entryId = none := by
          intro into
          rw [entry]
          exact not_not.mp fun bound => untouched ⟨into, bound⟩
        constructor
        · intro ht
          obtain ⟨mem, -⟩ | stored := mem_putRenderings_cases hb ht
          · exact mem
          · have none := unbound stored.into
            rw [stored.text] at none
            cases none
        · exact fun ht => mem_putRenderings_of_unbound hb ht unbound }

/-! ### Snapshots and archiving -/

/-- A snapshot for a mod concerns the mod alone, whether it is taken or fails. -/
theorem confined_snapshotChecked (ha : a.Consistent) (hm : a.mod? modName = some m)
    (access : Access) :
    a.Confined modName touched (Action.snapshotChecked m.id files access a).archive := by
  apply Action.archive_of_cases
  · intro failure b fails
    rw [Action.archive_of_fails_snapshotChecked fails]
    exact .refl ha
  · intro s b ends
    obtain ⟨-, ⟨-, -, -, rfl⟩ | ⟨-, -, -, stored⟩⟩ := Action.ends_snapshotChecked_iff.mp ends
    · exact .refl ha
    · exact confined_addVersion ha hm stored

/-- A key of files means the entry, among the entries of a version. -/
def Means (a : Archive) (versionId : RowId) (keyed : List SourceFile) (e : EntryRow) : Prop :=
  ∃ f ∈ keyed, ∃ info ∈ f.keys,
    (a.resolve? versionId f.filename info.keyPart).map (·.entryId) = some e.id

/-- What is meant is an entry of the version. -/
theorem Means.versionId_eq {versionId : RowId} (ha : a.Consistent) (he : e ∈ a.entries.rows)
    (means : a.Means versionId keyed e) : e.versionId = versionId := by
  obtain ⟨f, -, info, -, found⟩ := means
  obtain ⟨r, hr, id⟩ := Option.map_eq_some_iff.mp found
  obtain ⟨e', he', version, id'⟩ := mem_of_resolve? hr
  rw [← ha.entries.unique.eq_of_key_eq he' he (id'.trans id)]
  exact version

theorem means_of_bound {versionId : RowId} {results : List (String × List (Option String))}
    (bound : boundText? (a.bindResults versionId keyed results).rows e.id ≠ none) :
    a.Means versionId keyed e := by
  rw [ne_eq, boundText?_eq_none_iff] at bound
  push Not at bound
  obtain ⟨row, hrow, id⟩ := bound
  obtain ⟨p, -, hp⟩ := mem_rows_bindResults_iff_bindFile.mp hrow
  rw [bindFile] at hp
  split at hp
  · cases hp
  · split at hp
    · cases hp
    · next f found =>
      obtain ⟨q, hq, -, r, hr, entry⟩ := mem_rows_bindKeys_iff.mp hp
      refine ⟨f, List.mem_of_find?_eq_some found, q.1, (List.of_mem_zip hq).1, ?_⟩
      have name : f.filename = p.1 := by simpa using List.find?_some found
      rw [name, hr, ← id, ← entry]
      rfl

/-- Archiving results touches renderings of entries that a key means, whether they are stored or
archiving fails. -/
theorem confined_archiveAligned (ha : a.Consistent) (current : a.layout = .current)
    (versionId : RowId) (results : AlignedResults) (access : Access) :
    a.Confined modName (fun l e => l = language ∧ a.Means versionId keyed e)
      (Action.archiveAligned versionId results keyed language access a).archive := by
  apply Action.archive_of_cases
  · intro failure b fails
    rw [(Action.fails_archiveAligned current fails).1]
    exact .refl ha
  · intro report b ends
    have paths := hasFilePaths_of_current current
    obtain ⟨stored, -⟩ := (Action.ends_archiveAligned_iff paths).mp ends
    obtain ⟨hb, -⟩ := Action.ends_putRenderings_iff.mp stored
    exact (confined_putRenderings ha hb).mono fun e _ l ⟨into, bound⟩ =>
      ⟨into, means_of_bound bound⟩

/-! ### Entries of versions that are shared -/

/-- The entry is of a version with the fingerprint of `files`, and a key of `keyed` means it
there: so its rendering into the language is reached when these files are archived, of whatever
mod they are. -/
def Shares (a : Archive) (files keyed : List SourceFile) (language l : String) (e : EntryRow) :
    Prop :=
  l = language ∧ ∃ v ∈ a.versions.rows, v.id = e.versionId ∧ v.hash = snapshotHash files ∧
    a.Means v.id keyed e

theorem Shares.congr (versions : b.versions = a.versions) (entries : b.entries = a.entries)
    {l : String} (shares : b.Shares files keyed language l e) :
    a.Shares files keyed language l e := by
  obtain ⟨into, v, hv, id, hash, f, hf, info, hinfo, found⟩ := shares
  have same : b.entriesOf v.id = a.entriesOf v.id := by rw [entriesOf, entries, entriesOf]
  rw [resolve?_congr same] at found
  exact ⟨into, v, versions ▸ hv, id, hash, f, hf, info, hinfo, found⟩

/-- Archiving results for the version of a snapshot touches entries that the files share. -/
theorem confined_archiveAligned_of_snapshot (ha : a.Consistent) (hm : a.mod? modName = some m)
    (first : (Action.snapshotChecked m.id files).Ends access a s b) (results : AlignedResults)
    (access' : Access) :
    a.Confined modName (a.Shares files keyed language)
      (Action.archiveAligned s.versionId results keyed language access' b).archive := by
  have step : a.Confined modName (fun l e => l = language ∧ b.Means s.versionId keyed e) b := by
    have taken : a.Confined modName (fun l e => l = language ∧ b.Means s.versionId keyed e)
        (Action.snapshotChecked m.id files access a).archive := confined_snapshotChecked ha hm access
    rwa [first.2] at taken
  have current : b.layout = .current := by
    rw [Action.snapshotChecked_frame first]
    exact ha.layout_eq_current (Action.ends_snapshotChecked_iff.mp first).1
  refine (step.trans (confined_archiveAligned step.consistent current s.versionId results
    access')).mono ?_
  rintro e he l ⟨into, means⟩
  have version := means.versionId_eq step.consistent (step.grows.entries.subset he)
  obtain ⟨v, hv, id⟩ := List.mem_map.mp (ha.versionOfEntry e he)
  obtain ⟨w, hw, same⟩ := step.consistent.exists_version first
  have eq : v = w := step.consistent.versions.unique.eq_of_key_eq (step.grows.versions.subset hv)
    (List.mem_of_find?_eq_some hw) (id.trans (version.trans same.symm))
  obtain ⟨f, hf, info, hinfo, found⟩ := means
  refine ⟨into, v, hv, id, ?_, f, hf, info, hinfo, ?_⟩
  · rw [eq]
    simpa using List.find?_some hw
  · rw [← step.grows.resolve? hv, show v.id = s.versionId from id.trans version]
    exact found

/-- Archiving merged files touches entries that they share, whichever write fails. -/
theorem confined_archiveMergedBy (ha : a.Consistent) (w : WriteAccesses) (merged : MergedSet)
    (remoteId : Option String) (access : Access) :
    a.Confined merged.modName (a.Shares merged.sourceFiles merged.sourceFiles merged.language)
      (Action.archiveMergedBy w merged remoteId access a).archive := by
  rw [Action.archiveMergedBy]
  refine Action.archive_bind_of_untouched (.refl ha)
    (fun _ _ fails => Action.archive_of_fails_ensureNamedMod fails) fun id c first => ?_
  have first : (Action.ensureNamedMod merged.modName remoteId).Ends w.mod a id c := first
  obtain ⟨⟨m, hm, rfl⟩, frame⟩ := Action.ensureNamedMod_frame first
  have made : a.Confined merged.modName
      (a.Shares merged.sourceFiles merged.sourceFiles merged.language) c :=
    (ModReady.of_ends_ensureNamedMod first).confined ha
  -- Making the mod leaves versions and entries alone, so what is shared is the same.
  refine made.trans ((?_ : c.Confined merged.modName
    (c.Shares merged.sourceFiles merged.sourceFiles merged.language) _).mono
      fun e _ l shares => shares.congr (by rw [frame]) (by rw [frame]))
  refine Action.archive_bind_of_untouched (.refl made.consistent)
    (fun _ _ fails => Action.archive_of_fails_snapshotChecked fails) fun s d second => ?_
  rw [Action.archive_bind_of_reads fun _ => Action.reads_pure _]
  exact confined_archiveAligned_of_snapshot made.consistent hm second merged.alignedRenderings
    w.renderings

/-- An update touches entries that its files share in normal form, however it goes on. -/
theorem confined_updateBy (ha : a.Consistent) (w : WriteAccesses) (remoteId : Option String)
    (translator : Translator) (access : Access) :
    a.Confined modName
      (a.Shares (files.map (·.normalized)) (files.map (·.normalized)) language)
      (Action.updateBy w modName remoteId files language translator access a).archive := by
  rw [Action.updateBy]
  split
  · exact .refl ha
  · refine Action.archive_bind_of_untouched (.refl ha)
      (fun _ _ fails => (Action.reads_plan _ _ _).archive_of_fails fails) fun p b planned => ?_
    obtain ⟨-, rfl, rfl⟩ := (Action.ends_plan_iff ha).mp planned
    refine Action.archive_bind_of_untouched (.refl ha)
      (fun _ _ fails => (Action.reads_translate _ _).archive_of_fails fails)
      fun results c answered => ?_
    obtain ⟨-, rfl⟩ := Action.ends_translate_iff.mp answered
    -- After the writes there is only a report.
    rw [Action.archive_bind_of_reads fun _ =>
      (Action.reads_report _).bind fun _ => Action.reads_pure _]
    have archived := confined_archiveMergedBy ha w
      ((c.planOf modName language files).merge results) remoteId access
    rwa [sourceFiles_merge_planOf] at archived

end LocalizationMemory.Archive
