import LocalizationMemory.Archive.Binding
import LocalizationMemory.Proofs.Archive.Batch
import LocalizationMemory.Proofs.Dict
import LocalizationMemory.Proofs.Source

/-!
# What results are bound to

Binding only reads, so what results are bound to is a function of the archive. A key
that an entry of the file has to the letter is bound to that entry, before any other way
to find one is tried; and what is bound is always an entry of the version.

## Main definitions

* `Archive.bindResults` — what results are bound to
* `alignedTexts` — a text for each key of each file, as results
* `Archive.MeantAlone` — of the keys of the files one alone means an entry that has it
* `Archive.Holds` — a version has an entry for every line of the files

## Main results

* `Action.ends_archiveAligned_iff` — how archiving results ends
* `Archive.mem_rows_bindResults_iff` — the renderings that are bound
* `Archive.rows_bindResults_map` — texts can be changed before or after they are bound
* `Archive.MeantAlone.bound` — the text that is bound to an entry that one key means
* `Archive.Holds.meantAlone`, `Archive.Holds.complete` — in a version that holds every
  line each key means its entry, and every text is bound
-/

namespace LocalizationMemory

namespace Archive

variable {a : Archive} {versionId : RowId} {filename : String} {files : List SourceFile}

/-- What a rendering for a key is bound to. -/
def bindKey (a : Archive) (versionId : RowId) (filename rawKey text : String) : Binding :=
  match a.resolve? versionId filename rawKey with
  | some r => { rows := [(r.entryId, text)] }
  | none => { unresolved := [⟨filename, Key.normalize rawKey⟩] }

/-- What the renderings that are there are bound to. -/
def bindKeys (a : Archive) (versionId : RowId) (filename : String) :
    List (KeyInfo × Option String) → Binding
  | [] => {}
  | (_, none) :: r => a.bindKeys versionId filename r
  | (info, some text) :: r =>
    a.bindKey versionId filename info.keyPart text ++ a.bindKeys versionId filename r

/-- What the results for one file are bound to. -/
def bindFile (a : Archive) (versionId : RowId) (files : List SourceFile) (filename : String)
    (renderings : List (Option String)) : Binding :=
  if renderings.isEmpty then {}
  else
    match files.find? (·.filename == filename) with
    | none => { unknownFiles := [filename] }
    | some file => a.bindKeys versionId filename (file.keys.zip renderings)

/-- What results are bound to. -/
def bindResults (a : Archive) (versionId : RowId) (files : List SourceFile) :
    List (String × List (Option String)) → Binding
  | [] => {}
  | (filename, renderings) :: r =>
    a.bindFile versionId files filename renderings ++ a.bindResults versionId files r

end Archive

/-- A text for each key of each file, as results. -/
def alignedTexts (texts : SourceFile → List String) (files : List SourceFile) : AlignedResults :=
  .ofList <| files.map fun f => (f.filename, (texts f).map some)

/-! ### The actions -/

namespace Action

variable {access : Access} {a b : Archive} {versionId : RowId} {filename : String}
  {files : List SourceFile} (paths : a.layout.hasFilePaths = true)

include paths

theorem ends_resolve_iff {rawKey : String} {r : Option Resolution} :
    (resolve versionId filename rawKey).Ends access a r b ↔
      r = a.resolve? versionId filename rawKey ∧ b = a := by
  simp only [Ends, run_resolve paths, Except.ok.injEq, eq_comm]

theorem ends_bindKey_iff {rawKey text : String} {x : Binding} :
    (bindKey versionId filename rawKey text).Ends access a x b ↔
      x = a.bindKey versionId filename rawKey text ∧ b = a := by
  simp only [bindKey, ends_bind_iff, ends_resolve_iff paths, Archive.bindKey]
  constructor
  · rintro ⟨r, c, ⟨rfl, rfl⟩, rest⟩
    cases h : c.resolve? versionId filename rawKey <;> simpa [h] using rest
  · rintro ⟨rfl, rfl⟩
    refine ⟨_, b, ⟨rfl, rfl⟩, ?_⟩
    cases h : b.resolve? versionId filename rawKey <;> simp

theorem ends_bindKeys_iff {pairs : List (KeyInfo × Option String)} {x : Binding} :
    (bindKeys versionId filename pairs).Ends access a x b ↔
      x = a.bindKeys versionId filename pairs ∧ b = a := by
  induction pairs generalizing x b with
  | nil => exact ends_pure_iff
  | cons p r ih =>
    obtain ⟨info, rendering⟩ := p
    cases rendering with
    | none => exact ih
    | some text =>
      simp only [bindKeys, ends_bind_iff, ends_pure_iff, Archive.bindKeys]
      constructor
      · rintro ⟨_, c, first, _, d, rest, rfl, rfl⟩
        obtain ⟨rfl, rfl⟩ := (ends_bindKey_iff paths).mp first
        obtain ⟨rfl, rfl⟩ := ih.mp rest
        exact ⟨rfl, rfl⟩
      · rintro ⟨rfl, rfl⟩
        exact ⟨_, b, (ends_bindKey_iff paths).mpr ⟨rfl, rfl⟩, _, b, ih.mpr ⟨rfl, rfl⟩, rfl, rfl⟩

theorem ends_bindFile_iff {renderings : List (Option String)} {x : Binding} :
    (bindFile versionId files filename renderings).Ends access a x b ↔
      x = a.bindFile versionId files filename renderings ∧ b = a := by
  unfold bindFile Archive.bindFile
  split
  · exact ends_pure_iff
  · cases found : files.find? (·.filename == filename) with
    | none => simp
    | some file =>
      by_cases differs : renderings.length ≠ file.keys.length
      · simp [differs, ends_bindKeys_iff paths]
      · simp [differs, ends_bindKeys_iff paths]

theorem ends_bindResults_iff {results : List (String × List (Option String))} {x : Binding} :
    (bindResults versionId files results).Ends access a x b ↔
      x = a.bindResults versionId files results ∧ b = a := by
  induction results generalizing x b with
  | nil => exact ends_pure_iff
  | cons p r ih =>
    simp only [bindResults, ends_bind_iff, ends_pure_iff, Archive.bindResults]
    constructor
    · rintro ⟨_, c, first, _, d, rest, rfl, rfl⟩
      obtain ⟨rfl, rfl⟩ := (ends_bindFile_iff paths).mp first
      obtain ⟨rfl, rfl⟩ := ih.mp rest
      exact ⟨rfl, rfl⟩
    · rintro ⟨rfl, rfl⟩
      exact ⟨_, b, (ends_bindFile_iff paths).mpr ⟨rfl, rfl⟩, _, b, ih.mpr ⟨rfl, rfl⟩, rfl, rfl⟩

omit paths in
/-- A batch is stored if it is empty, or if the right to write can be had. -/
theorem ends_putRenderings_iff {language : String} {rows : List EntryRendering} {n : Nat} :
    (putRenderings language rows).Ends access a n b ↔
      Archive.putRenderings language access.now rows a = .ok b ∧ n = rows.length ∧
        (rows ≠ [] → access.now ≤ Access.latestTime ∧ a.layout.hasTables = true ∧
          access.obstacle = none) := by
  rw [putRenderings]
  cases rows with
  | nil => simp [and_comm]
  | cons row r =>
    simp only [List.isEmpty_cons, Bool.false_eq_true, if_false, ends_write_change_iff,
      map_eq_ok_iff, Prod.mk.injEq]
    constructor
    · rintro ⟨early, tables, free, c, hb, rfl, rfl⟩
      exact ⟨hb, rfl, fun _ => ⟨early, tables, free⟩⟩
    · rintro ⟨hb, rfl, right⟩
      obtain ⟨early, tables, free⟩ := right (List.cons_ne_nil row r)
      exact ⟨early, tables, free, b, hb, rfl, rfl⟩

/-- Results are bound, and what is bound is stored. -/
theorem ends_archiveAligned_iff {results : AlignedResults} {language : String}
    {r : ArchiveReport} :
    (archiveAligned versionId results files language).Ends access a r b ↔
      (putRenderings language (a.bindResults versionId files results.entries).rows).Ends access a
          r.archived b ∧
        r.unresolved = (a.bindResults versionId files results.entries).unresolved ∧
        r.unknownFiles = (a.bindResults versionId files results.entries).unknownFiles := by
  simp only [archiveAligned, ends_bind_iff, ends_bindResults_iff paths]
  constructor
  · rintro ⟨_, c, ⟨rfl, rfl⟩, n, d, put, rest⟩
    have last : r = ⟨n, (c.bindResults versionId files results.entries).unresolved,
        (c.bindResults versionId files results.entries).unknownFiles⟩ ∧ b = d := by
      split at rest <;> simpa using rest
    obtain ⟨rfl, rfl⟩ := last
    exact ⟨put, rfl, rfl⟩
  · rintro ⟨put, unresolved, unknown⟩
    refine ⟨_, a, ⟨rfl, rfl⟩, r.archived, b, put, ?_⟩
    rw [← unresolved, ← unknown]
    split <;> simp

end Action

/-! ### What is bound -/

@[simp] theorem Binding.rows_append (b c : Binding) : (b ++ c).rows = b.rows ++ c.rows := rfl

/-- A binding of so many renderings that left nothing out. -/
structure Binding.Complete (n : Nat) (b : Binding) : Prop where
  rows : b.rows.length = n
  unresolved : b.unresolved = []
  unknownFiles : b.unknownFiles = []

theorem Binding.Complete.append {b c : Binding} {n m : Nat} (hb : b.Complete n)
    (hc : c.Complete m) : (b ++ c).Complete (n + m) where
  rows := by rw [rows_append, List.length_append, hb.rows, hc.rows]
  unresolved := by
    change b.unresolved ++ c.unresolved = []
    rw [hb.unresolved, hc.unresolved, List.append_nil]
  unknownFiles := by
    change b.unknownFiles ++ c.unknownFiles = []
    rw [hb.unknownFiles, hc.unknownFiles, List.append_nil]

theorem Binding.complete_empty : Binding.Complete 0 {} := ⟨rfl, rfl, rfl⟩

namespace Archive

variable {a : Archive} {versionId : RowId} {filename rawKey : String} {files : List SourceFile}
  {row : EntryRendering}

/-- A key that an entry of the file has to the letter means that entry. -/
theorem resolve?_of_mem (ha : a.Consistent) {e : EntryRow} (he : e ∈ a.entries.rows)
    (version : e.versionId = versionId) (file : e.file = some filename)
    (key : e.key = Key.normalize rawKey) :
    a.resolve? versionId filename rawKey = some ⟨e.id, .exact⟩ := by
  -- The key to the letter in its own file is looked up first, and no other entry has it.
  have found : a.firstMatch? versionId ⟨.exact (Key.normalize rawKey), .exact filename⟩ =
      some e := by
    have candidate : e ∈ a.candidates versionId ⟨.exact (Key.normalize rawKey), .exact filename⟩ := by
      simp [candidates, KeyPattern.admits, FileScope.accepts, he, version, file, key]
    cases hm : a.firstMatch? versionId ⟨.exact (Key.normalize rawKey), .exact filename⟩ with
    | none =>
      have reject := List.find?_eq_none.mp hm e candidate
      simp [KeyPattern.accepts, key] at reject
    | some e' =>
      have mem := List.mem_of_find?_eq_some hm
      have accepted := List.find?_some hm
      simp only [candidates, mem_sortBy, List.mem_filter, mem_entriesOf_iff, FileScope.accepts,
        Bool.and_eq_true, beq_iff_eq] at mem
      obtain ⟨⟨mem', version'⟩, -, file'⟩ := mem
      have key' : e'.key = Key.normalize rawKey := KeyPattern.accepts_exact_iff.mp accepted
      rw [ha.entry_unique mem' he (version'.trans version.symm) (file'.trans file.symm)
        (key'.trans key.symm)]
  simp [resolve?, Strategy.order, Strategy.lookup?, found]

/-- What a key means is an entry of the version. -/
theorem mem_of_resolve? {r : Resolution} (h : a.resolve? versionId filename rawKey = some r) :
    ∃ e ∈ a.entries.rows, e.versionId = versionId ∧ e.id = r.entryId := by
  obtain ⟨s, -, hs⟩ := List.exists_of_findSome?_eq_some h
  obtain ⟨e, found, rfl⟩ := Option.map_eq_some_iff.mp hs
  obtain ⟨lookup, -, hm⟩ := Option.bind_eq_some_iff.mp found
  have mem := List.mem_of_find?_eq_some hm
  simp only [candidates, mem_sortBy, List.mem_filter, mem_entriesOf_iff] at mem
  exact ⟨e, mem.1.1, mem.1.2, rfl⟩

/-! ### Rows of a binding -/

/-- The keys of a file are bound one after the other, as far as they mean an entry. -/
theorem rows_bindKeys (filename : String) (pairs : List (KeyInfo × Option String)) :
    (a.bindKeys versionId filename pairs).rows = pairs.filterMap fun p =>
      p.2.bind fun text => (a.resolve? versionId filename p.1.keyPart).map fun r =>
        (r.entryId, text) := by
  induction pairs with
  | nil => rfl
  | cons p r ih =>
    obtain ⟨info, rendering⟩ := p
    cases rendering with
    | none => exact ih
    | some text =>
      rw [bindKeys, Binding.rows_append, ih, bindKey]
      cases found : a.resolve? versionId filename info.keyPart <;> simp [found]

theorem mem_rows_bindKeys_iff {pairs : List (KeyInfo × Option String)} :
    row ∈ (a.bindKeys versionId filename pairs).rows ↔
      ∃ p ∈ pairs, p.2 = some row.2 ∧
        ∃ r, a.resolve? versionId filename p.1.keyPart = some r ∧ r.entryId = row.1 := by
  simp [rows_bindKeys, Option.bind_eq_some_iff, Prod.ext_iff, and_comm]

/-- The bindings of files stand one after the other. -/
theorem rows_bindResults (results : List (String × List (Option String))) :
    (a.bindResults versionId files results).rows =
      results.flatMap fun p => (a.bindFile versionId files p.1 p.2).rows := by
  induction results with
  | nil => rfl
  | cons p r ih => rw [bindResults, Binding.rows_append, ih, List.flatMap_cons]

/-- Among files of distinct names a name stands for its file. -/
theorem find?_filename (names : (files.map (·.filename)).Nodup) {f : SourceFile} (hf : f ∈ files) :
    files.find? (·.filename == f.filename) = some f := by
  cases found : files.find? (·.filename == f.filename) with
  | none => exact absurd (beq_self_eq_true f.filename) (List.find?_eq_none.mp found f hf)
  | some g =>
    have same : g.filename = f.filename := by simpa using List.find?_some found
    rw [List.inj_on_of_nodup_map names (List.mem_of_find?_eq_some found) hf same]

theorem mem_entries_alignedTexts_iff {texts : SourceFile → List String}
    (names : (files.map (·.filename)).Nodup) {p : String × List (Option String)} :
    p ∈ (alignedTexts texts files).entries ↔
      ∃ f ∈ files, (f.filename, (texts f).map some) = p := by
  have distinct : ((files.map fun f => (f.filename, (texts f).map some)).map (·.1)).Nodup := by
    rw [List.map_map]
    exact names
  rw [alignedTexts, (Dict.entries_ofList_perm distinct).mem_iff, List.mem_map]

/-- What the texts of one file are bound to. -/
theorem bindFile_of_mem (names : (files.map (·.filename)).Nodup) {f : SourceFile} (hf : f ∈ files)
    (renderings : List (Option String)) :
    a.bindFile versionId files f.filename renderings =
      a.bindKeys versionId f.filename (f.keys.zip renderings) := by
  rw [bindFile, find?_filename names hf]
  cases renderings with
  | nil => simp [bindKeys]
  | cons r l => simp

theorem mem_rows_bindResults_iff_bindFile {results : List (String × List (Option String))} :
    row ∈ (a.bindResults versionId files results).rows ↔
      ∃ p ∈ results, row ∈ (a.bindFile versionId files p.1 p.2).rows := by
  rw [rows_bindResults, List.mem_flatMap]

/-- A row is bound exactly if it gives the text for a key of a file to the entry that the
key means. -/
theorem mem_rows_bindResults_iff (proper : ProperFiles files)
    {texts : SourceFile → List String} :
    row ∈ (a.bindResults versionId files (alignedTexts texts files).entries).rows ↔
      ∃ f ∈ files, ∃ p ∈ f.keys.zip (texts f), p.2 = row.2 ∧
        ∃ r, a.resolve? versionId f.filename p.1.keyPart = some r ∧ r.entryId = row.1 := by
  rw [mem_rows_bindResults_iff_bindFile]
  constructor
  · rintro ⟨p, hp, hrow⟩
    obtain ⟨f, hf, rfl⟩ := (mem_entries_alignedTexts_iff proper.names).mp hp
    rw [bindFile_of_mem proper.names hf, List.zip_map_right] at hrow
    obtain ⟨q, hq, text, meaning⟩ := mem_rows_bindKeys_iff.mp hrow
    obtain ⟨⟨info, t⟩, hzip, rfl⟩ := List.mem_map.mp hq
    exact ⟨f, hf, (info, t), hzip, Option.some.inj text, meaning⟩
  · rintro ⟨f, hf, p, hp, text, meaning⟩
    refine ⟨_, (mem_entries_alignedTexts_iff proper.names).mpr ⟨f, hf, rfl⟩, ?_⟩
    rw [bindFile_of_mem proper.names hf, List.zip_map_right]
    refine mem_rows_bindKeys_iff.mpr ⟨_, List.mem_map_of_mem hp, ?_, meaning⟩
    simp [text]

/-- Only entries of the version are bound. -/
theorem exists_entry_of_mem_rows {results : List (String × List (Option String))}
    (h : row ∈ (a.bindResults versionId files results).rows) :
    ∃ e ∈ a.entries.rows, e.versionId = versionId ∧ e.id = row.1 := by
  obtain ⟨p, -, hrow⟩ := mem_rows_bindResults_iff_bindFile.mp h
  rw [bindFile] at hrow
  split at hrow
  · cases hrow
  · split at hrow
    · cases hrow
    · obtain ⟨q, -, -, r, meaning, hid⟩ := mem_rows_bindKeys_iff.mp hrow
      obtain ⟨e, he, version, same⟩ := mem_of_resolve? meaning
      exact ⟨e, he, version, same.trans hid⟩

theorem exists_entry_of_bound {results : List (String × List (Option String))} {entryId : RowId}
    (bound : boundText? (a.bindResults versionId files results).rows entryId ≠ none) :
    ∃ e ∈ a.entries.rows, e.versionId = versionId ∧ e.id = entryId := by
  obtain ⟨text, ht⟩ := Option.ne_none_iff_exists'.mp bound
  exact exists_entry_of_mem_rows (mem_of_boundText?_eq_some ht)

/-! ### Texts play no part in what is bound -/

theorem rows_bindKeys_map (f : String → String) (pairs : List (KeyInfo × Option String)) :
    (a.bindKeys versionId filename (pairs.map fun p => (p.1, p.2.map f))).rows =
      (a.bindKeys versionId filename pairs).rows.map fun row => (row.1, f row.2) := by
  rw [rows_bindKeys, rows_bindKeys, List.filterMap_map, List.map_filterMap]
  refine List.filterMap_congr fun p _ => ?_
  cases text : p.2 <;> simp [text, Function.comp_def]

theorem rows_bindFile_map (f : String → String) (renderings : List (Option String)) :
    (a.bindFile versionId files filename (renderings.map (·.map f))).rows =
      (a.bindFile versionId files filename renderings).rows.map fun row => (row.1, f row.2) := by
  cases renderings with
  | nil => rfl
  | cons r l =>
    unfold bindFile
    simp only [List.map_cons, List.isEmpty_cons, Bool.false_eq_true, if_false]
    cases files.find? (·.filename == filename) with
    | none => rfl
    | some file =>
      dsimp only
      rw [← rows_bindKeys_map, ← List.map_cons, List.zip_map_right]
      rfl

/-- Texts can be changed before or after they are bound. -/
theorem rows_bindResults_map (f : String → String)
    (results : List (String × List (Option String))) :
    (a.bindResults versionId files (results.map fun p => (p.1, p.2.map (·.map f)))).rows =
      (a.bindResults versionId files results).rows.map fun row => (row.1, f row.2) := by
  simp only [rows_bindResults, List.flatMap_map, List.map_flatMap, rows_bindFile_map]

/-! ### Leaving nothing out -/

/-- Renderings whose keys all mean an entry are all bound, as far as they are there. -/
theorem complete_bindKeys {pairs : List (KeyInfo × Option String)}
    (resolved : ∀ p ∈ pairs, ∃ r, a.resolve? versionId filename p.1.keyPart = some r) :
    (a.bindKeys versionId filename pairs).Complete (pairs.filterMap (·.2)).length := by
  induction pairs with
  | nil => exact Binding.complete_empty
  | cons p l ih =>
    have others := ih fun q hq => resolved q (List.mem_cons_of_mem _ hq)
    obtain ⟨r, meaning⟩ := resolved p List.mem_cons_self
    obtain ⟨info, rendering⟩ := p
    cases rendering with
    | none => exact others
    | some text =>
      have first : (a.bindKey versionId filename info.keyPart text).Complete 1 := by
        rw [bindKey, meaning]
        exact ⟨rfl, rfl, rfl⟩
      have size : ((info, some text) :: l).filterMap (·.2) = text :: l.filterMap (·.2) := rfl
      rw [size, List.length_cons, Nat.add_comm]
      exact first.append others

/-- Results that are bound file by file are bound together. -/
theorem complete_bindResults {results : List (String × List (Option String))}
    {size : String × List (Option String) → Nat}
    (each : ∀ p ∈ results, (a.bindFile versionId files p.1 p.2).Complete (size p)) :
    (a.bindResults versionId files results).Complete (results.map size).sum := by
  induction results with
  | nil => exact Binding.complete_empty
  | cons p r ih =>
    rw [List.map_cons, List.sum_cons]
    exact (each p List.mem_cons_self).append (ih fun q hq => each q (List.mem_cons_of_mem _ hq))

/-! ### Entries that one key means -/

/-- An entry of the version that has a key of the files is meant by no other key of
theirs. -/
def MeantAlone (a : Archive) (versionId : RowId) (files : List SourceFile) : Prop :=
  ∀ e ∈ a.entries.rows, e.versionId = versionId →
    ∀ f ∈ files, e.file = some f.filename → ∀ info ∈ f.keys, e.key = Key.normalize info.keyPart →
      ∀ f' ∈ files, ∀ info' ∈ f'.keys,
        (a.resolve? versionId f'.filename info'.keyPart).map (·.entryId) = some e.id →
          f' = f ∧ info' = info

instance (a : Archive) (versionId : RowId) (files : List SourceFile) :
    Decidable (a.MeantAlone versionId files) :=
  inferInstanceAs (Decidable (∀ e ∈ a.entries.rows, e.versionId = versionId →
    ∀ f ∈ files, e.file = some f.filename → ∀ info ∈ f.keys, e.key = Key.normalize info.keyPart →
      ∀ f' ∈ files, ∀ info' ∈ f'.keys,
        (a.resolve? versionId f'.filename info'.keyPart).map (·.entryId) = some e.id →
          f' = f ∧ info' = info))

/-- To an entry that one key of the files means, the text of this key is bound. -/
theorem MeantAlone.bound (ha : a.Consistent) (proper : ProperFiles files)
    (alone : a.MeantAlone versionId files) {texts : SourceFile → List String}
    (lengths : ∀ f ∈ files, f.keys.length = (texts f).length) {f : SourceFile} (hf : f ∈ files)
    {info : KeyInfo} {text : String} (hp : (info, text) ∈ f.keys.zip (texts f)) {e : EntryRow}
    (he : e ∈ a.entries.rows) (version : e.versionId = versionId)
    (file : e.file = some f.filename) (key : e.key = Key.normalize info.keyPart) :
    boundText? (a.bindResults versionId files (alignedTexts texts files).entries).rows e.id =
      some text := by
  refine boundText?_eq_some ?_ fun row hrow same => ?_
  · exact (mem_rows_bindResults_iff proper).mpr
      ⟨f, hf, (info, text), hp, rfl, _, resolve?_of_mem ha he version file key, rfl⟩
  · obtain ⟨f', hf', p, hp', text', r, meaning, hid⟩ := (mem_rows_bindResults_iff proper).mp hrow
    have means : (a.resolve? versionId f'.filename p.1.keyPart).map (·.entryId) = some e.id := by
      rw [meaning, Option.map_some, hid, same]
    obtain ⟨rfl, sameKey⟩ := alone e he version f hf file info (List.of_mem_zip hp).1 key f' hf'
      p.1 (List.of_mem_zip hp').1 means
    -- Keys differ within a file, so the row is that of the key itself.
    have keys : ((f'.keys.zip (texts f')).map (·.1.keyPart)).Nodup := by
      have distinct := proper.keys f' hf
      rw [← List.map_fst_zip (Nat.le_of_eq (lengths f' hf)), List.map_map] at distinct
      exact distinct
    have samePair : p = (info, text) :=
      List.inj_on_of_nodup_map keys hp' hp (congrArg KeyInfo.keyPart sameKey)
    rw [← text', samePair]

/-! ### Binding to a version that holds every line -/

/-- A version has an entry for every line of the files. -/
def Holds (a : Archive) (versionId : RowId) (files : List SourceFile) : Prop :=
  ∀ line ∈ sourceLines files,
    ∃ e ∈ a.entries.rows, e.versionId = versionId ∧ e.content = line.content

instance (a : Archive) (versionId : RowId) (files : List SourceFile) :
    Decidable (a.Holds versionId files) :=
  inferInstanceAs (Decidable (∀ line ∈ sourceLines files,
    ∃ e ∈ a.entries.rows, e.versionId = versionId ∧ e.content = line.content))

section Holds

variable (ha : a.Consistent) (proper : ProperFiles files) (holds : a.Holds versionId files)

include ha holds

/-- Each key of a file means the entry of its line. -/
theorem Holds.meaning {f : SourceFile} (hf : f ∈ files) {p : KeyInfo × String}
    (hp : p ∈ f.pairs) :
    ∃ e ∈ a.entries.rows, e.versionId = versionId ∧ e.file = some f.filename ∧
      e.key = Key.normalize p.1.keyPart ∧ e.text = p.2 ∧
      a.resolve? versionId f.filename p.1.keyPart = some ⟨e.id, .exact⟩ := by
  have hline : ⟨f.filename, Key.normalize p.1.keyPart, p.2⟩ ∈ sourceLines files :=
    mem_sourceLines_iff.mpr ⟨f, hf, mem_lines_of_mem_pairs hp⟩
  obtain ⟨e, he, version, content⟩ := holds _ hline
  obtain ⟨file, key, text⟩ := EntryRow.content_eq_iff.mp content
  exact ⟨e, he, version, file, key, text, resolve?_of_mem ha he version file key⟩

include proper

/-- In a version that holds every line each entry is meant by the key of its line. -/
theorem Holds.meantAlone : a.MeantAlone versionId files := by
  intro e he version f hf file info hinfo key f' hf' info' hinfo' means
  obtain ⟨r, meaning, hid⟩ := Option.map_eq_some_iff.mp means
  obtain ⟨q, hq, rfl⟩ : ∃ q ∈ f'.pairs, q.1 = info' := by
    rw [← proper.map_fst_pairs hf'] at hinfo'
    exact List.mem_map.mp hinfo'
  -- The other key means the entry of its own line, so this is the same entry.
  obtain ⟨e', he', -, file', key', -, meaning'⟩ := holds.meaning ha hf' hq
  rw [meaning] at meaning'
  have sameEntry : e' = e := by
    apply ha.entries.unique.eq_of_key_eq he' he
    rw [← hid, Option.some.inj meaning']
  rw [sameEntry] at file' key'
  obtain rfl : f' = f := proper.eq_of_filename hf' hf (Option.some.inj (file'.symm.trans file))
  refine ⟨rfl, List.inj_on_of_nodup_map (proper.keys f' hf) hinfo' hinfo ?_⟩
  rw [← proper.normalized f' hf _ hinfo', ← key', key]
  exact proper.normalized f' hf _ hinfo

/-- Every text is bound. -/
theorem Holds.complete {texts : SourceFile → List String}
    (lengths : ∀ f ∈ files, f.keys.length = (texts f).length) :
    (a.bindResults versionId files (alignedTexts texts files).entries).Complete
      (files.flatMap texts).length := by
  have resolved : ∀ f ∈ files, ∀ info ∈ f.keys,
      ∃ r, a.resolve? versionId f.filename info.keyPart = some r := by
    intro f hf info hinfo
    rw [← proper.map_fst_pairs hf] at hinfo
    obtain ⟨p, hp, rfl⟩ := List.mem_map.mp hinfo
    obtain ⟨e, -, -, -, -, -, meaning⟩ := holds.meaning ha hf hp
    exact ⟨_, meaning⟩
  -- A dictionary holds the files in the order of their names; how many texts they have
  -- together does not depend on that.
  have perm : (alignedTexts texts files).entries.Perm
      (files.map fun f => (f.filename, (texts f).map some)) := by
    apply Dict.entries_ofList_perm
    rw [List.map_map]
    exact proper.names
  have total : ((alignedTexts texts files).entries.map fun p => p.2.length).sum =
      (files.flatMap texts).length := by
    rw [(perm.map _).sum_nat, List.map_map, List.length_flatMap]
    simp [Function.comp_def]
  rw [← total]
  apply complete_bindResults
  intro p hp
  obtain ⟨f, hf, rfl⟩ := (mem_entries_alignedTexts_iff proper.names).mp hp
  rw [bindFile_of_mem proper.names hf, List.zip_map_right, List.length_map]
  have length : (((f.keys.zip (texts f)).map (Prod.map id some)).filterMap (·.2)).length =
      (texts f).length := by
    rw [List.filterMap_map]
    simp [lengths f hf]
  rw [← length]
  refine complete_bindKeys fun p hp => ?_
  obtain ⟨q, hq, rfl⟩ := List.mem_map.mp hp
  exact resolved f hf q.1 (List.of_mem_zip hq).1

end Holds

end Archive

end LocalizationMemory
