import LocalizationMemory.Adoption
import LocalizationMemory.Proofs.Archive.Binding
import LocalizationMemory.Proofs.SnapshotRace

/-!
# The index and the archive

A key is looked up in memory, in an index of the keys of source files, and on disk, among
the entries of a version. Both take the first match of the first strategy that has one. So
for a version that was stored for files, looking a key up in the index of one file and among
the entries of this file comes to one place: the archive leaves out later entries of a key
that is there, and these the index never reaches.

## Main definitions

* `SourceFile.meant?` — the entry of a file that a key means, with its place

## Main results

* `KeyIndex.entries_ofFiles` — what an index of source files holds
* `KeyIndex.resolve?_ofFiles` — the index finds the entry that is meant
* `Archive.StoredFor.resolve?` — the archive finds it as well
* `Archive.Reached.resolves_as_index` — so they agree
-/

namespace LocalizationMemory

variable {a b before : Archive} {access : Access} {modId : RowId} {files : List SourceFile}
  {f : SourceFile} {s : Snapshot} {rawKey : String}

/-! ### What a key of a file means -/

namespace SourceFile

/-- The first entry of a file whose key meets a pattern, with its place. -/
def firstMatch? (f : SourceFile) (p : KeyPattern) : Option ((KeyInfo × String) × Nat) :=
  f.pairs.zipIdx.find? fun q => p.accepts (Key.normalize q.1.1.keyPart)

/-- The entry of a file that a key means, with its place: the first match of the first strategy
that has one. -/
def meant? (f : SourceFile) (rawKey : String) : Option ((KeyInfo × String) × Nat) :=
  KeyIndex.strategies.findSome? fun s => (s.pattern? (Key.normalize rawKey)).bind f.firstMatch?

/-- What is meant stands at its place. -/
theorem getElem?_of_meant? {q : (KeyInfo × String) × Nat} (h : f.meant? rawKey = some q) :
    f.pairs[q.2]? = some q.1 := by
  obtain ⟨s, -, hs⟩ := List.exists_of_findSome?_eq_some h
  obtain ⟨p, -, hp⟩ := Option.bind_eq_some_iff.mp hs
  exact List.mem_zipIdx_iff_getElem?.mp (List.mem_of_find?_eq_some hp)

end SourceFile

/-! ### The index -/

namespace KeyIndex

theorem entries_foldl_insert (filename : String) (keys : List (KeyInfo × Nat)) (index : KeyIndex) :
    (keys.foldl (fun index k => index.insert k.1.keyPart filename k.2) index).entries =
      index.entries ++ keys.map fun k => ⟨Key.normalize k.1.keyPart, filename, k.2⟩ := by
  induction keys generalizing index with
  | nil => simp
  | cons k r ih => simp [ih]

/-- An index of source files holds their keys, normalized, file by file. -/
theorem entries_ofFiles (files : List SourceFile) :
    (ofFiles files).entries = files.flatMap fun f =>
      f.keys.zipIdx.map fun k => ⟨Key.normalize k.1.keyPart, f.filename, k.2⟩ := by
  have from' (index : KeyIndex) :
      (files.foldl (fun index file => file.keys.zipIdx.foldl
        (fun index k => index.insert k.1.keyPart file.filename k.2) index) index).entries =
      index.entries ++ files.flatMap fun f =>
        f.keys.zipIdx.map fun k => ⟨Key.normalize k.1.keyPart, f.filename, k.2⟩ := by
    induction files generalizing index with
    | nil => simp
    | cons f r ih => rw [List.foldl_cons, ih, entries_foldl_insert, List.flatMap_cons,
        List.append_assoc]
  exact from' {}

/-- The index of one file finds the first match. -/
theorem find?_ofFiles (aligned : f.keys.length = f.texts.length) (p : KeyPattern) :
    (ofFiles [f]).find? p = (f.firstMatch? p).map fun q =>
      ⟨Key.normalize q.1.1.keyPart, f.filename, q.2⟩ := by
  rw [find?, entries_ofFiles, List.flatMap_singleton, ← SourceFile.map_fst_pairs aligned, List.zipIdx_map, List.map_map,
    List.find?_map]
  rfl

/-- The index of one file finds the entry that is meant. -/
theorem resolve?_ofFiles (aligned : f.keys.length = f.texts.length) (rawKey : String) :
    (ofFiles [f]).resolve? rawKey = (f.meant? rawKey).map fun q => (f.filename, q.2) := by
  have answer (s : Strategy) :
      ((s.lookup? "" (Key.normalize rawKey)).bind fun l => (ofFiles [f]).find? l.key) =
        ((s.pattern? (Key.normalize rawKey)).bind f.firstMatch?).map fun q =>
          ⟨Key.normalize q.1.1.keyPart, f.filename, q.2⟩ := by
    rw [Strategy.lookup?_eq, Option.bind_map, Option.map_bind]
    congr 1
    funext p
    exact find?_ofFiles aligned p
  rw [resolve?, SourceFile.meant?, List.map_findSome?, List.map_findSome?]
  congr 1
  funext s
  rw [Function.comp_apply, Function.comp_apply, answer, Option.map_map]
  rfl

end KeyIndex

/-! ### The archive -/

namespace Archive

/-- In a version that was stored for files a key of a file means the entry of what it means in the
file. -/
theorem StoredFor.resolve? {now : Millis} (h : a.StoredFor modId files now s) (ha : a.Consistent)
    (names : (files.map (·.filename)).Nodup) (nonempty : ∀ f ∈ files, f.filename ≠ "")
    (hf : f ∈ files) (zeroless : Zeroless (Key.normalize rawKey)) :
    ∃ found : Option EntryRow,
      (a.resolve? s.versionId f.filename rawKey).map (·.entryId) = found.map (·.id) ∧
      (∀ e ∈ found, e ∈ a.entriesOfFile s.versionId f.filename) ∧
      found.map (·.content) = (f.meant? rawKey).map fun q =>
        SourceLine.content ⟨f.filename, Key.normalize q.1.1.keyPart, q.1.2⟩ := by
  have first (p : KeyPattern) :
      ((a.entriesOfFile s.versionId f.filename).find? (p.accepts ·.key)).map (·.content) =
        (f.firstMatch? p).map fun q =>
          SourceLine.content ⟨f.filename, Key.normalize q.1.1.keyPart, q.1.2⟩ := by
    -- Entries, the first lines of their keys and all lines have the same first match.
    calc ((a.entriesOfFile s.versionId f.filename).find? (p.accepts ·.key)).map (·.content)
        = ((a.entriesOfFile s.versionId f.filename).map (·.content)).find? (p.accepts ·.2.1) := by
          rw [List.find?_map]
          rfl
      _ = ((distinctLines f.lines).map (·.content)).find? (p.accepts ·.2.1) := by
          rw [h.map_content_entriesOfFile names hf]
      _ = ((distinctLines f.lines).find? (p.accepts ·.key)).map (·.content) := by
          rw [List.find?_map]
          rfl
      _ = (f.lines.find? (p.accepts ·.key)).map (·.content) := by
          rw [find?_distinctLines fun _ _ _ key => by rw [key]]
      _ = (f.pairs.find? fun x => p.accepts (Key.normalize x.1.keyPart)).map fun x =>
            SourceLine.content ⟨f.filename, Key.normalize x.1.keyPart, x.2⟩ := by
          rw [SourceFile.lines, List.find?_map, Option.map_map]
          rfl
      _ = _ := by
          nth_rewrite 1 [← List.zipIdx_map_fst 0 f.pairs]
          rw [List.find?_map, Option.map_map]
          rfl
  refine ⟨_, resolve?_of_named ha (h.named nonempty) zeroless, fun e he => ?_, ?_⟩
  · obtain ⟨t, -, ht⟩ := List.exists_of_findSome?_eq_some he
    obtain ⟨p, -, hp⟩ := Option.bind_eq_some_iff.mp ht
    exact List.mem_of_find?_eq_some hp
  · rw [SourceFile.meant?, List.map_findSome?, List.map_findSome?]
    congr 1
    funext t
    rw [Function.comp_apply, Function.comp_apply, Option.map_bind, Option.map_bind]
    congr 1
    funext p
    exact first p

end Archive

/-! ### Both together -/

/-- The index in memory agrees with the archive. Where a snapshot of files, each with a name of its
own, stored a version, a key of a file is looked up among the entries of the version with success
exactly if it is looked up with success in the index of the file. Then the index gives the file and
a place in it, and what the archive finds is the one entry of the file with the normalized key of
this place. Its text is that of the place. -/
theorem Archive.Reached.resolves_as_index {tick : Millis → Millis → Prop} {now : Millis}
    (h : before.Reached tick now) (aligned : ∀ f ∈ files, f.keys.length = f.texts.length)
    (names : (files.map (·.filename)).Nodup) (nonempty : ∀ f ∈ files, f.filename ≠ "")
    (ends : (Action.snapshotChecked modId files).Ends access before s a) (new : s.created = true)
    (hf : f ∈ files) (zeroless : Zeroless (Key.normalize rawKey)) :
    ∃ r, (∀ access', (Action.resolve s.versionId f.filename rawKey).Ends access' a r a) ∧
      (r.isSome ↔ ((KeyIndex.ofFiles [f]).resolve? rawKey).isSome) ∧
      ∀ x ∈ r, ∀ file position, (KeyIndex.ofFiles [f]).resolve? rawKey = some (file, position) →
        file = f.filename ∧ ∃ info text, f.pairs[position]? = some (info, text) ∧
          ∃ e ∈ a.entriesOfFile s.versionId f.filename, e.id = x.entryId ∧
            e.key = Key.normalize info.keyPart ∧ e.text = text ∧
            ∀ e' ∈ a.entriesOfFile s.versionId f.filename, e'.key = e.key → e' = e := by
  have consistent := h.isConsistent
  obtain ⟨tables, ⟨v, -, rfl, -⟩ | ⟨-, -, -, stored⟩⟩ := Action.ends_snapshotChecked_iff.mp ends
  · cases new
  have consistent' : a.Consistent := consistent.addVersion stored
  have paths : a.layout.hasFilePaths = true := by
    rw [addVersion_frame stored]
    exact hasFilePaths_of_current (consistent.layout_eq_current tables)
  obtain ⟨found, answer, own, content⟩ :=
    (storedFor_of_addVersion consistent stored).resolve? consistent' names nonempty hf zeroless
  refine ⟨a.resolve? s.versionId f.filename rawKey,
    fun access' => (Action.ends_resolve_iff paths).mpr ⟨rfl, rfl⟩, ?_, ?_⟩
  · rw [KeyIndex.resolve?_ofFiles (aligned f hf), ← Option.isSome_map, answer, Option.isSome_map,
      Option.isSome_map, ← Option.isSome_map, content, Option.isSome_map]
  · intro x hx file position index
    rw [KeyIndex.resolve?_ofFiles (aligned f hf)] at index
    obtain ⟨⟨⟨info, text⟩, _⟩, meant, rfl, rfl⟩ : ∃ q, f.meant? rawKey = some q ∧
        f.filename = file ∧ q.2 = position := by simpa using index
    rw [meant] at content
    obtain ⟨e, rfl, same⟩ := Option.map_eq_some_iff.mp content
    obtain ⟨-, key, meantText⟩ := EntryRow.content_eq_iff.mp same
    have mem := own e rfl
    rw [Option.mem_def.mp hx] at answer
    refine ⟨rfl, info, text, SourceFile.getElem?_of_meant? meant, e, mem,
      (Option.some.inj answer).symm, key, meantText, fun e' mem' sameKey => ?_⟩
    exact List.inj_on_of_nodup_map (consistent'.nodup_key_entriesOfFile _ _) mem' mem sameKey

/-- A key is found under a revision, the first of two, in the second file, where it is listed
between lines of another key. -/
theorem Archive.Reached.resolves_as_index_of_revisions :
    ∃ (a before : Archive) (s : Snapshot) (files : List SourceFile) (f : SourceFile)
      (x : Resolution), before.Reached (· ≤ ·) 1 ∧ f ∈ files ∧
      (Action.snapshotChecked 1 files).Ends { now := 2 } before s a ∧
      (KeyIndex.ofFiles [f]).resolve? " k: " = some ("a.yml", 1) ∧
      (Action.resolve s.versionId "a.yml" " k: ").Ends { now := 3 } a (some x) a ∧
      ∃ e ∈ a.entriesOfFile s.versionId "a.yml", e.id = x.entryId ∧ e.key = "k:1" ∧
        e.text = "Y" := by
  let store : Store := { settings := {} }
  let ops : List Operation := [.ensureMod "Alpha" none]
  let f : SourceFile := ⟨"a.yml", [⟨"j", none⟩, ⟨"k:1", none⟩, ⟨"k:0", none⟩, ⟨"j:", none⟩],
    ["X", "Y", "Z", "V"]⟩
  let files : List SourceFile := [⟨"b.yml", [⟨"k:2", none⟩], ["W"]⟩, f]
  obtain ⟨before, found, result⟩ : ∃ before ∈ (store.operateAll ops).archive? 0,
      (Action.snapshotChecked 1 files { now := 2 } before).result = .ok ⟨1, true, 4⟩ := by
    decide +kernel
  have reached : before.Reached (· ≤ ·) 1 := ⟨_, 0, store.reached_operateAll ops, found⟩
  have index : (KeyIndex.ofFiles [f]).resolve? " k: " = some ("a.yml", 1) := by decide
  have mem : f ∈ files := List.mem_cons_of_mem _ List.mem_cons_self
  have zeroless : Zeroless (Key.normalize " k: ") := by decide
  obtain ⟨r, resolves, found, same⟩ := reached.resolves_as_index (by decide) (by decide)
    (by decide) ⟨result, rfl⟩ rfl mem zeroless
  rw [index] at found
  obtain ⟨x, rfl⟩ := Option.isSome_iff_exists.mp (found.mpr rfl)
  obtain ⟨-, info, text, place, e, he, id, key, text', -⟩ := same x rfl _ _ index
  obtain ⟨rfl, rfl⟩ : info = ⟨"k:1", none⟩ ∧ text = "Y" := by
    have second : f.pairs[1]? = some (⟨"k:1", none⟩, "Y") := by decide
    simpa using place.symm.trans second
  exact ⟨_, before, _, files, f, x, reached, mem, ⟨result, rfl⟩, index, resolves _, e, he, id,
    key.trans (by decide), text'⟩

end LocalizationMemory
