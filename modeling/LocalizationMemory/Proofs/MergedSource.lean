import Mathlib.Algebra.Order.BigOperators.Group.List
import Mathlib.Algebra.Order.Group.Nat
import LocalizationMemory.Proofs.Comparison
import LocalizationMemory.Proofs.Fingerprint
import LocalizationMemory.Proofs.Migration

/-!
# Snapshots of merged files

Files that were compared with their histories and merged with renderings are files again,
and a snapshot can be made of them as of the files that were compared. Comparing puts
their keys in normal form, and storing does so once more. A key is *settled* if the second
time changes nothing: a key with two colons at its end is not, as it loses one each time.
The fingerprint leaves keys out, so it is the same both ways. The entries are the same
exactly if all keys are settled; if not, some come under shorter keys, and fewer of them
where keys of one file become one.

## Main definitions

* `SourceLine.normalized` — a line whose key is put in normal form once more
* `Plan.ofHistories` — the plan for files, each compared with a history of its own
* `Archive.Shadows` — an archive holds the lines of another with the keys normalized

## Main results

* `snapshotHash_normalized` — normal keys leave the fingerprint as it is
* `Archive.firstLines_normalized_sublist` — normalizing keys makes lines one, and none two
* `Archive.exists_insertEntries_normalized` — what can be stored can be stored normalized
* `perm_map_normalized_iff` — lines are kept, in whatever order, exactly if they are settled
* `Action.snapshot_of_merged_alike_iff` — snapshots of files and of merged files
* `Action.snapshot_of_merged_renames_key` — they differ for a key with two colons
-/

namespace LocalizationMemory

/-! ### Keys that are normalized twice -/

theorem Text.trimChars_sublist (cs : List Char) : (Text.trimChars cs).Sublist cs := by
  have ends : ∀ l : List Char, (Text.trimEndChars l).Sublist l := by
    intro l
    have front := (List.dropWhile_sublist Text.isBlank (l := l.reverse)).reverse
    rwa [List.reverse_reverse] at front
  exact (ends _).trans (List.dropWhile_sublist _)

/-- Normalizing a key only leaves characters out. -/
theorem Key.normalizeChars_sublist (raw : List Char) : (Key.normalizeChars raw).Sublist raw := by
  unfold Key.normalizeChars Key.dropFinalColon?
  dsimp only
  split
  · next base dropped =>
    split at dropped
    · next r back =>
      obtain rfl := Option.some.inj dropped
      have whole : r.reverse ++ [':'] = Text.trimChars raw := by
        rw [← List.reverse_cons, ← back, List.reverse_reverse]
      have within : (r.reverse ++ [':']).Sublist raw := whole ▸ Text.trimChars_sublist raw
      exact (Text.trimChars_sublist _).trans ((List.sublist_append_left _ _).trans within)
    · cases dropped
  · exact Text.trimChars_sublist raw

/-- A key that normalizing changes gets shorter. -/
theorem Key.length_normalize_lt {key : String} (unsettled : Key.normalize key ≠ key) :
    (Key.normalize key).toList.length < key.toList.length := by
  have sub := Key.normalizeChars_sublist key.toList
  rw [← Key.toList_normalize] at sub
  refine Nat.lt_of_le_of_ne sub.length_le fun same => unsettled ?_
  rw [← String.toList_inj]
  exact sub.eq_of_length same

/-! ### Lines under keys that are normalized once more -/

/-- A line whose key is put in normal form. -/
def SourceLine.normalized (l : SourceLine) : SourceLine := { l with key := Key.normalize l.key }

theorem SourceLine.normalized_eq_self_iff {l : SourceLine} :
    l.normalized = l ↔ Key.normalize l.key = l.key := by
  cases l
  simp [normalized]

theorem SourceFile.lines_normalized (f : SourceFile) :
    f.normalized.lines = f.lines.map (·.normalized) := by
  have pairs : f.normalized.pairs =
      f.pairs.map fun p => (⟨Key.normalize p.1.keyPart, p.1.lineNum⟩, p.2) :=
    List.zip_map' ..
  rw [lines, pairs, lines, List.map_map, List.map_map]
  rfl

theorem sourceLines_normalized (files : List SourceFile) :
    sourceLines (files.map (·.normalized)) = (sourceLines files).map (·.normalized) := by
  simp only [sourceLines_eq_flatMap, List.flatMap_map, List.map_flatMap, SourceFile.lines_normalized]

/-- Lines are kept, in whatever order, exactly if their keys are settled. -/
theorem perm_map_normalized_iff {lines : List SourceLine} :
    (lines.map (·.normalized)).Perm lines ↔ ∀ l ∈ lines, l.normalized = l := by
  constructor
  · intro perm
    by_contra unsettled
    simp only [not_forall, exists_prop] at unsettled
    -- No key gets longer and one gets shorter, so all of them together do.
    have shorter : (lines.map fun l => l.normalized.key.toList.length).sum <
        (lines.map fun l => l.key.toList.length).sum := by
      apply List.sum_lt_sum
      · intro l _
        have sub := Key.normalizeChars_sublist l.key.toList
        rw [← Key.toList_normalize] at sub
        exact sub.length_le
      · obtain ⟨l, mem, changed⟩ := unsettled
        exact ⟨l, mem, Key.length_normalize_lt (mt SourceLine.normalized_eq_self_iff.mpr changed)⟩
    have same := (perm.map fun l => l.key.toList.length).sum_eq
    rw [List.map_map, Function.comp_def] at same
    exact shorter.ne same
  · intro settled
    rw [List.map_congr_left (g := id) settled, List.map_id]

/-- Normalizing the keys of a file once is enough. -/
def SourceFile.Settled (f : SourceFile) : Prop :=
  ∀ k ∈ f.keys, Key.normalize (Key.normalize k.keyPart) = Key.normalize k.keyPart

instance (f : SourceFile) : Decidable f.Settled :=
  List.decidableBAll
    (p := fun k : KeyInfo => Key.normalize (Key.normalize k.keyPart) = Key.normalize k.keyPart) f.keys

/-! ### Files after comparing and merging -/

/-- The plan for files, each of which is compared with a history of its own. -/
def Plan.ofHistories (modName language : String)
    (compared : List (SourceFile × List ArchivedEntry)) : Plan :=
  ⟨modName, language, compared.map fun c => classify c.1 c.2⟩

theorem sourceFiles_merge_ofHistories (modName language : String)
    (compared : List (SourceFile × List ArchivedEntry)) (results : FileResults) :
    ((Plan.ofHistories modName language compared).merge results).sourceFiles =
      (compared.map (·.1)).map (·.normalized) := by
  rw [MergedSet.sourceFiles, Plan.merge, Plan.ofHistories, List.map_map, List.map_map, List.map_map]
  exact List.map_congr_left fun c _ => toSourceFile_merge c.1 c.2 results

section Aligned

variable {files : List SourceFile} (aligned : ∀ f ∈ files, f.keys.length = f.texts.length)

include aligned

theorem misalignments_eq_nil : misalignments files = [] := by
  rw [misalignments, List.filter_eq_nil_iff.mpr fun f hf => ?_, List.map_nil]
  simp [SourceFile.misaligned, aligned f hf]

theorem nameAndTexts_normalized :
    (files.map (·.normalized)).map (·.nameAndTexts) = files.map (·.nameAndTexts) := by
  rw [List.map_map]
  exact List.map_congr_left fun f hf =>
    congrArg (Prod.mk f.filename) (SourceFile.map_snd_pairs (aligned f hf))

/-- Normal keys leave the fingerprint as it is. -/
theorem snapshotHash_normalized :
    snapshotHash (files.map (·.normalized)) = snapshotHash files := by
  have texts (l : List SourceFile) : (sortedByName l).flatMap (·.texts) =
      ((sortedByName l).map (·.nameAndTexts)).flatMap (·.2) := by
    rw [List.flatMap_map]
    rfl
  have bytes : contentBytes (files.map (·.normalized)) = contentBytes files := by
    apply contentBytes_eq_of_texts
    rw [texts, texts, map_sortedByName, map_sortedByName, nameAndTexts_normalized aligned]
  rw [snapshotHash, snapshotHash, bytes]

omit aligned in
theorem aligned_normalized (files : List SourceFile) :
    ∀ f ∈ files.map (·.normalized), f.keys.length = f.texts.length := by
  intro f hf
  obtain ⟨f, -, rfl⟩ := List.mem_map.mp hf
  simp [SourceFile.normalized]

/-- Normalizing keeps all lines of files exactly if the files are settled. -/
theorem normalized_lines_iff :
    (∀ l ∈ sourceLines files, l.normalized = l) ↔ ∀ f ∈ files, f.Settled := by
  simp only [SourceLine.normalized_eq_self_iff, mem_sourceLines_iff, SourceFile.lines,
    List.mem_map, forall_exists_index, and_imp]
  constructor
  · intro settled f hf k hk
    obtain ⟨text, hp⟩ := SourceFile.exists_mem_pairs (aligned f hf) hk
    exact settled ⟨f.filename, Key.normalize k.keyPart, text⟩ f hf (k, text) hp rfl
  · rintro settled _ f hf p hp rfl
    exact settled f hf p.1 (List.of_mem_zip hp).1

end Aligned

/-! ### Storing lines with normalized keys -/

namespace Archive

variable {a b c : Archive} {layout : Layout} {versionId : RowId} {lines : List SourceLine}

theorem sameKey_normalized {l l' : SourceLine} (same : sameKey layout l l' = true) :
    sameKey layout l.normalized l'.normalized = true := by
  obtain ⟨key, file⟩ : l'.key = l.key ∧ (layout.keysPerVersion = true ∨ l'.file = l.file) := by
    simpa [sameKey] using same
  simpa [sameKey, SourceLine.normalized, key] using file

/-- Normalizing keys makes lines of one key of several, and never the other way round. -/
theorem firstLines_normalized_sublist :
    (firstLines layout (lines.map (·.normalized))).Sublist
      ((firstLines layout lines).map (·.normalized)) := by
  induction lines with
  | nil => exact .slnil
  | cons line r ih =>
    rw [List.map_cons, firstLines_cons, firstLines_cons, List.map_cons]
    refine List.Sublist.cons_cons _ ((ih.filter _).trans ?_)
    -- A line that the normalized head leaves in is one that the head leaves in.
    rw [List.filter_map]
    refine List.Sublist.map _ (List.monotone_filter_right _ fun l apart => ?_)
    simp only [Function.comp_apply, Bool.not_eq_true', ← Bool.not_eq_true] at apart ⊢
    exact mt sameKey_normalized apart

/-- The lines of a version are kept, in whatever order, exactly if they are settled. -/
theorem perm_firstLines_normalized_iff :
    (firstLines layout (lines.map (·.normalized))).Perm (firstLines layout lines) ↔
      ∀ l ∈ lines, l.normalized = l := by
  constructor
  · intro perm
    -- As many are left, so none is lost, and so each of them is settled.
    have none : firstLines layout (lines.map (·.normalized)) =
        (firstLines layout lines).map (·.normalized) :=
      firstLines_normalized_sublist.eq_of_length (by rw [perm.length_eq, List.length_map])
    rw [none, perm_map_normalized_iff] at perm
    intro l mem
    obtain ⟨first, kept, same⟩ := exists_mem_firstLines layout mem
    have key : l.key = first.key := by simpa using (Bool.and_eq_true_iff.mp same).1
    rw [SourceLine.normalized_eq_self_iff, key]
    exact SourceLine.normalized_eq_self_iff.mp (perm first kept)
  · intro settled
    rw [List.map_congr_left (g := id) settled, List.map_id]

/-- An archive has at most as many entries as another, and for every entry that the other has of a
version one that keeps out the same line with its key normalized. -/
structure Shadows (versionId : RowId) (a b : Archive) : Prop where
  layout : b.layout = a.layout
  rules : b.rules = a.rules
  fewer : b.entries.rows.length ≤ a.entries.rows.length
  covers : ∀ e ∈ a.entries.rows, e.versionId = versionId → ∃ e' ∈ b.entries.rows,
    e'.versionId = versionId ∧ e'.key = Key.normalize e.key ∧
      (a.layout.keysPerVersion = true ∨ e'.file = e.file)

namespace Shadows

/-- A version without entries is shadowed by itself. -/
theorem refl (none : ∀ e ∈ a.entries.rows, e.versionId ≠ versionId) : a.Shadows versionId a :=
  ⟨rfl, rfl, Nat.le_refl _, fun e he own => absurd own (none e he)⟩

/-- A rule that lets the larger table grow lets the smaller one grow. -/
theorem refusal? (h : a.Shadows versionId b) (accepted : a.refusal? .sourceEntries = none) :
    b.refusal? .sourceEntries = none := by
  have fewer := h.fewer
  rw [Archive.refusal?, Option.map_eq_none_iff, List.find?_eq_none] at accepted ⊢
  rw [h.rules]
  intro r hr refuses
  apply accepted r hr
  obtain ⟨table, size⟩ := Bool.and_eq_true_iff.mp refuses
  exact Bool.and_eq_true_iff.mpr ⟨table, decide_eq_true ((of_decide_eq_true size).trans fewer)⟩

/-- What keeps a line out of the one archive keeps the normalized line out of the other. -/
theorem inTheWay (h : a.Shadows versionId b) {line : SourceLine}
    (way : a.entries.rows.any (inTheWay a.layout versionId line) = true) :
    b.entries.rows.any (Archive.inTheWay b.layout versionId line.normalized) = true := by
  obtain ⟨e, he, way⟩ := List.any_eq_true.mp way
  obtain ⟨⟨own, key⟩, file⟩ : (e.versionId = versionId ∧ e.key = line.key) ∧
      (a.layout.keysPerVersion = true ∨ e.file = some line.file) := by
    simpa [Archive.inTheWay] using way
  obtain ⟨e', he', own', key', file'⟩ := h.covers e he own
  refine List.any_eq_true.mpr ⟨e', he', ?_⟩
  have reach : a.layout.keysPerVersion = true ∨ e'.file = some line.file := by
    rcases file with perVersion | file
    · exact .inl perVersion
    · exact file'.imp_right (·.trans file)
  simpa [Archive.inTheWay, own', key', key, SourceLine.normalized, h.layout] using reach

/-- A line that can be stored can be stored normalized beside it. -/
theorem insertEntry (h : a.Shadows versionId b) {line : SourceLine}
    (stored : a.insertEntry versionId line = .ok c) :
    ∃ d, b.insertEntry versionId line.normalized = .ok d ∧ c.Shadows versionId d := by
  obtain ⟨accepted, rfl⟩ := insertEntry_eq_ok_iff.mp stored
  refine ⟨_, insertEntry_eq_ok_iff.mpr ⟨h.refusal? accepted, rfl⟩, h.layout, h.rules, ?_, ?_⟩
  · have fewer := h.fewer
    simp only [Table.rows_addUnless]
    by_cases way : a.entries.rows.any (Archive.inTheWay a.layout versionId line) = true
    · rwa [if_pos way, if_pos (h.inTheWay way)]
    · rw [if_neg way]
      split <;> simp only [List.length_append, List.length_singleton] <;> omega
  · intro e he own
    rcases Table.mem_rows_addUnless he with he | rfl
    · obtain ⟨e', he', alike⟩ := h.covers e he own
      exact ⟨e', Table.prefix_rows_addUnless.subset he', alike⟩
    · simp only [Table.rows_addUnless]
      split
      · next way =>
        -- What is in the way of the normalized line covers the new entry.
        obtain ⟨e', he', way⟩ := List.any_eq_true.mp way
        obtain ⟨⟨own', key⟩, file⟩ : (e'.versionId = versionId ∧ e'.key = line.normalized.key) ∧
            (a.layout.keysPerVersion = true ∨ e'.file = some line.file) := by
          simpa [Archive.inTheWay, h.layout, SourceLine.normalized] using way
        exact ⟨e', he', own', key, file⟩
      · exact ⟨_, List.mem_append_right _ List.mem_cons_self, rfl, rfl, .inr rfl⟩

end Shadows

/-- Lines that can be stored in a version without entries can be stored with their keys
normalized, and are then no more. -/
theorem exists_insertEntries_normalized (h : a.Shadows versionId b)
    (stored : insertEntries versionId lines a = .ok c) :
    ∃ d, insertEntries versionId (lines.map (·.normalized)) b = .ok d ∧ c.Shadows versionId d := by
  induction lines generalizing a b with
  | nil =>
    obtain rfl := insertEntries_nil_eq_ok_iff.mp stored
    exact ⟨b, rfl, h⟩
  | cons line r ih =>
    obtain ⟨a', first, rest⟩ := insertEntries_cons_eq_ok_iff.mp stored
    obtain ⟨b', first', h'⟩ := h.insertEntry first
    obtain ⟨d, rest', h''⟩ := ih h' rest
    exact ⟨d, insertEntries_cons_eq_ok_iff.mpr ⟨b', first', rest'⟩, h''⟩

theorem filter_isFreeUnder (none : ∀ e ∈ a.entries.rows, e.versionId ≠ versionId) :
    lines.filter (isFreeUnder layout a versionId) = lines := by
  refine List.filter_eq_self.mpr fun line _ => ?_
  rw [isFreeUnder, Bool.not_eq_true', List.any_eq_false]
  intro e he way
  have own : e.versionId = versionId := by
    simp only [inTheWay, Bool.and_eq_true, beq_iff_eq] at way
    exact way.1.1
  exact none e he own

variable {files : List SourceFile} {modId : RowId} {now : Millis} {s : Snapshot}

/-- What a version adds, if no entry stands under its id before. -/
theorem addedContents_addVersion (none : ∀ e ∈ a.entries.rows, e.versionId ≠ a.versions.nextId)
    (stored : a.addVersion modId files now = .ok (s, b)) :
    s.created = true ∧ s.versionId = a.versions.nextId ∧
      a.addedContents b = (firstLines a.layout (sourceLines files)).map (·.content) ∧
      s.entriesWritten = (firstLines a.layout (sourceLines files)).length := by
  obtain ⟨created, newId, -, -, ⟨new, news, rows, count⟩, -⟩ :=
    exists_newEntries_addVersion_of_layout rfl stored
  rw [filter_isFreeUnder none] at news
  have length := congrArg List.length news.contents
  rw [List.length_map, List.length_map] at length
  exact ⟨created, newId, addedContents_of_rows news rows, count.trans length⟩

/-- A version that can be stored can be stored with its keys normalized. -/
theorem exists_addVersion_normalized
    (aligned : ∀ f ∈ files, f.keys.length = f.texts.length)
    (none : ∀ e ∈ a.entries.rows, e.versionId ≠ a.versions.nextId)
    (stored : a.addVersion modId files now = .ok (s, b)) :
    ∃ s' b', a.addVersion modId (files.map (·.normalized)) now = .ok (s', b') := by
  obtain ⟨c, d, hc, paths, hd, -, -⟩ := addVersion_eq_ok_iff.mp stored
  have shadowed : c.Shadows c.versions.lastId c := by
    obtain ⟨-, -, -, rfl⟩ := insertVersion_eq_ok_iff.mp hc
    exact .refl none
  obtain ⟨d', hd', -⟩ := exists_insertEntries_normalized shadowed hd
  rw [← sourceLines_normalized] at hd'
  rw [← snapshotHash_normalized aligned] at hc
  exact ⟨_, _, addVersion_eq_ok_iff.mpr ⟨c, d', hc, paths, hd', rfl, rfl⟩⟩

end Archive

/-! ### Snapshots -/

namespace Action

open Archive

/-- A snapshot depends on the reports, the fingerprint and the lines of the files alone. -/
theorem snapshotChecked_congr {files files' : List SourceFile}
    (reports : misalignments files = misalignments files')
    (hash : snapshotHash files = snapshotHash files')
    (lines : sourceLines files = sourceLines files') (modId : RowId) :
    snapshotChecked modId files = snapshotChecked modId files' := by
  have stored (a : Archive) (now : Millis) :
      a.addVersion modId files now = a.addVersion modId files' now := by
    rw [addVersion, addVersion, hash, lines]
  simp only [snapshotChecked, snapshot, commitVersion, reports, hash, stored]

/-- Files that are compared with any histories and merged with any answers have the fingerprint
they had. If their keys are settled, a snapshot of the merged files does all that one of the files
does, from every archive. In an archive without entries under the id of the version to come, where
the files can be snapshotted the merged files can, too, with a version under the same id and no
more entries; but what is stored is the same, in whatever order, only if nothing is stored or the
keys are settled. -/
theorem snapshot_of_merged_alike_iff {compared : List (SourceFile × List ArchivedEntry)}
    (aligned : ∀ f ∈ compared.map (·.1), f.keys.length = f.texts.length)
    (modName language : String) (results : FileResults) :
    let files := compared.map (·.1)
    let merged := ((Plan.ofHistories modName language compared).merge results).sourceFiles
    snapshotHash merged = snapshotHash files ∧
    ((∀ f ∈ files, f.Settled) →
      ∀ modId, snapshotChecked modId merged = snapshotChecked modId files) ∧
    ∀ modId access a s b, (∀ e ∈ a.entries.rows, e.versionId ≠ a.versions.nextId) →
      (snapshotChecked modId files).Ends access a s b →
      ∃ s' b', (snapshotChecked modId merged).Ends access a s' b' ∧ s'.versionId = s.versionId ∧
        s'.created = s.created ∧ s'.entriesWritten ≤ s.entriesWritten ∧
        ((a.addedContents b').Perm (a.addedContents b) ↔
          (s.created = true → ∀ f ∈ files, f.Settled)) := by
  intro files merged
  have normal : merged = files.map (·.normalized) :=
    sourceFiles_merge_ofHistories modName language compared results
  have hash : snapshotHash merged = snapshotHash files := by
    rw [normal, snapshotHash_normalized aligned]
  refine ⟨hash, fun settled modId => ?_, fun modId access a s b none ends => ?_⟩
  · have lines : sourceLines merged = sourceLines files := by
      rw [normal, sourceLines_normalized,
        List.map_congr_left (g := id) ((normalized_lines_iff aligned).mpr settled), List.map_id]
    have reports : misalignments merged = misalignments files := by
      rw [misalignments_eq_nil aligned, normal, misalignments_eq_nil (aligned_normalized files)]
    exact snapshotChecked_congr reports hash lines modId
  · obtain ⟨tables, ⟨v, known, rfl, rfl⟩ | ⟨new, early, free, stored⟩⟩ :=
      ends_snapshotChecked_iff.mp ends
    · -- A version of that fingerprint is there, and it is that of the merged files, too.
      rw [← hash] at known
      exact ⟨_, b, ends_snapshotChecked_iff.mpr ⟨tables, .inl ⟨v, known, rfl, rfl⟩⟩, rfl, rfl,
        Nat.le_refl _, by simp⟩
    · obtain ⟨s', b', stored'⟩ := exists_addVersion_normalized aligned none stored
      rw [← normal] at stored'
      rw [← hash] at new
      obtain ⟨created, id, contents, count⟩ := addedContents_addVersion none stored
      obtain ⟨created', id', contents', count'⟩ := addedContents_addVersion none stored'
      rw [normal, sourceLines_normalized] at contents' count'
      have injective : Function.Injective SourceLine.content := by
        rintro ⟨file, key, text⟩ ⟨file', key', text'⟩ same
        simpa [SourceLine.content] using same
      refine ⟨s', b', ends_snapshotChecked_iff.mpr ⟨tables, .inr ⟨new, early, free, stored'⟩⟩,
        id'.trans id.symm, created'.trans created.symm, ?_, ?_⟩
      · rw [count, count']
        exact firstLines_normalized_sublist.length_le.trans (Nat.le_of_eq (List.length_map _))
      · rw [contents, contents', List.map_perm_map_iff injective, perm_firstLines_normalized_iff,
          normalized_lines_iff aligned]
        exact ⟨fun settled _ => settled, fun settled => settled created⟩

/-- Keys with blanks, a colon or a revision are settled, so the merged file is stored as the file,
whatever of it is in the history and whatever is answered. -/
theorem snapshot_of_merged_alike_iff_of_spelled :
    let compared : List (SourceFile × List ArchivedEntry) :=
      [(⟨"a.yml", [⟨" k: ", none⟩, ⟨"l:3", none⟩, ⟨"k", none⟩], ["X", "Y", "Z"]⟩,
        [⟨"k", "X", some "ko:X"⟩])]
    let merged := ((Plan.ofHistories "Alpha" "ko" compared).merge
      (.ofList [("a.yml", ["ko:Y"])])).sourceFiles
    (∀ f ∈ compared.map (·.1), f.keys.length = f.texts.length) ∧
    (∀ f ∈ compared.map (·.1), f.Settled) ∧
    ∃ a s b, a.Reached (· ≤ ·) 1 ∧ (∀ e ∈ a.entries.rows, e.versionId ≠ a.versions.nextId) ∧
      (snapshotChecked 1 (compared.map (·.1))).Ends { now := 2 } a s b ∧
      (snapshotChecked 1 merged).Ends { now := 2 } a s b ∧
      a.addedContents b = [(some "a.yml", "k", "X"), (some "a.yml", "l:3", "Y")] := by
  intro compared merged
  let s : Store := { settings := {} }
  have aligned : ∀ f ∈ compared.map (·.1), f.keys.length = f.texts.length := by decide +kernel
  have settled : ∀ f ∈ compared.map (·.1), f.Settled := by decide +kernel
  obtain ⟨a, found, unused, succeeds, rows⟩ :
      ∃ a ∈ (s.operateAll [.ensureMod "Alpha" none]).archive? 0,
        (∀ e ∈ a.entries.rows, e.versionId ≠ a.versions.nextId) ∧
        (snapshotChecked 1 (compared.map (·.1)) { now := 2 } a).result.isOk = true ∧
        a.addedContents (snapshotChecked 1 (compared.map (·.1)) { now := 2 } a).archive =
          [(some "a.yml", "k", "X"), (some "a.yml", "l:3", "Y")] := by decide +kernel
  obtain ⟨w, ends⟩ := exists_ends_of_isOk succeeds
  obtain ⟨-, same, -⟩ := snapshot_of_merged_alike_iff aligned "Alpha" "ko"
    (.ofList [("a.yml", ["ko:Y"])])
  have merged_eq : snapshotChecked 1 merged = snapshotChecked 1 (compared.map (·.1)) :=
    same settled 1
  refine ⟨aligned, settled, a, w, _,
    ⟨_, 0, s.reached_operateAll [.ensureMod "Alpha" none], found⟩, unused, ends, ?_, rows⟩
  rw [merged_eq]
  exact ends

/-- A key with two colons at its end loses one when its file is stored, and both when the file is
compared and merged before. -/
theorem snapshot_of_merged_renames_key :
    let files : List SourceFile := [⟨"a.yml", [⟨"k::", none⟩], ["X"]⟩]
    let merged := ((Plan.ofHistories "Alpha" "ko" (files.map fun f => (f, []))).merge
      (.ofList [("a.yml", ["ko:X"])])).sourceFiles
    (∀ f ∈ files, f.keys.length = f.texts.length) ∧ (files.map (·.filename)).Nodup ∧
    ∃ a s b s' b', a.Reached (· ≤ ·) 1 ∧
      (snapshotChecked 1 files).Ends { now := 2 } a s b ∧
      (snapshotChecked 1 merged).Ends { now := 2 } a s' b' ∧
      a.addedContents b = [(some "a.yml", "k:", "X")] ∧
      a.addedContents b' = [(some "a.yml", "k", "X")] := by
  intro files merged
  let s : Store := { settings := {} }
  obtain ⟨a, found, direct, contents, through, contents'⟩ :
      ∃ a ∈ (s.operateAll [.ensureMod "Alpha" none]).archive? 0,
        (snapshotChecked 1 files { now := 2 } a).result.isOk = true ∧
        a.addedContents (snapshotChecked 1 files { now := 2 } a).archive =
          [(some "a.yml", "k:", "X")] ∧
        (snapshotChecked 1 merged { now := 2 } a).result.isOk = true ∧
        a.addedContents (snapshotChecked 1 merged { now := 2 } a).archive =
          [(some "a.yml", "k", "X")] := by decide +kernel
  obtain ⟨w, ends⟩ := exists_ends_of_isOk direct
  obtain ⟨w', ends'⟩ := exists_ends_of_isOk through
  exact ⟨by decide, by decide, a, w, _, w', _,
    ⟨_, 0, s.reached_operateAll [.ensureMod "Alpha" none], found⟩, ends, ends', contents, contents'⟩

end Action

end LocalizationMemory
