import Mathlib.Data.List.Find
import LocalizationMemory.Proofs.Migration
import LocalizationMemory.Proofs.Reuse

/-!
# Keys that a file repeats

A file may give a key more than once, each time with another text. A snapshot stores the
first text of the key and drops the others. The renderings of all of them are archived one
after the other under the one entry of the key, so that the last of them stays. What is
read back is therefore the first text beside the rendering of the last one, and they belong
together exactly if the two texts are rendered alike.

## Main definitions

* `PlainFiles` — aligned files of plain and distinct names, whose normal keys may repeat
* `SourceFile.firstText?`, `SourceFile.lastText?` — the first and the last text of a key
* `Archive.FirstVersion` — an archive that holds one version and nothing else

## Main results

* `boundText?_bindKeys` — of the texts for a key the last is bound
* `Archive.boundText?_batch` — the same of all files, where every key has its entry
* `Archive.FirstVersion.firstText?` — what is stored for a key is its first text
* `Action.update_renders_stored_texts_iff` — when a rendering belongs to the text beside it
* `Action.update_renders_other_text` — it does not where two texts are rendered differently
-/

namespace LocalizationMemory

/-- A list of source files that are aligned, have plain and distinct names, and have normalized
keys, which may be repeated. -/
structure PlainFiles (files : List SourceFile) : Prop where
  aligned : ∀ f ∈ files, f.keys.length = f.texts.length
  names : (files.map (·.filename)).Nodup
  plain : ∀ f ∈ files, ∀ c ∈ f.filename.toList, c ≠ '/' ∧ c ≠ '\\'
  normalized : ∀ f ∈ files, ∀ k ∈ f.keys, Key.normalize k.keyPart = k.keyPart

namespace SourceFile

/-- The first text that a file gives for a key. -/
def firstText? (f : SourceFile) (key : String) : Option String :=
  (f.pairs.find? (·.1.keyPart == key)).map (·.2)

/-- The last text that a file gives for a key. -/
def lastText? (f : SourceFile) (key : String) : Option String :=
  (f.pairs.reverse.find? (·.1.keyPart == key)).map (·.2)

end SourceFile

/-! ### The last text is bound -/

theorem boundText?_append (rows rows' : List EntryRendering) (entryId : RowId) :
    boundText? (rows ++ rows') entryId =
      (boundText? rows' entryId).or (boundText? rows entryId) := by
  induction rows with
  | nil => simp [boundText?]
  | cons row r ih => rw [List.cons_append, boundText?, ih, boundText?, Option.or_assoc]

namespace Archive

variable {a b : Archive} {versionId : RowId} {files : List SourceFile} {filename : String}
  {e : EntryRow}

/-- Every key of the files has its own entry in a version. -/
def CoversKeys (a : Archive) (versionId : RowId) (files : List SourceFile) : Prop :=
  ∀ f ∈ files, ∀ k ∈ f.keys, ∃ e ∈ a.entries.rows,
    e.versionId = versionId ∧ e.file = some f.filename ∧ e.key = Key.normalize k.keyPart

/-- Of the texts for a key the last is bound to the entry of the key. -/
theorem boundText?_bindKeys (ha : a.Consistent) (he : e ∈ a.entries.rows)
    (version : e.versionId = versionId) (file : e.file = some filename)
    {pairs : List (KeyInfo × String)}
    (covered : ∀ p ∈ pairs, ∃ e ∈ a.entries.rows,
      e.versionId = versionId ∧ e.file = some filename ∧ e.key = Key.normalize p.1.keyPart) :
    boundText? (a.bindKeys versionId filename (pairs.map (Prod.map id some))).rows e.id =
      (pairs.reverse.find? (Key.normalize ·.1.keyPart == e.key)).map (·.2) := by
  induction pairs with
  | nil => rfl
  | cons p r ih =>
    obtain ⟨e', he', version', file', key'⟩ := covered p List.mem_cons_self
    have means := resolve?_of_mem ha he' version' file' key'
    have own : e'.id = e.id ↔ Key.normalize p.1.keyPart = e.key := by
      rw [← key']
      constructor
      · exact fun id => congrArg EntryRow.key (ha.entries.unique.eq_of_key_eq he' he id)
      · exact fun key => congrArg EntryRow.id
          (ha.entry_unique he' he (version'.trans version.symm) (file'.trans file.symm) key)
    -- The key at the head binds its text to the entry of that key alone, unless a later one does.
    have first : boundText? (a.bindKey versionId filename p.1.keyPart p.2).rows e.id =
        if Key.normalize p.1.keyPart = e.key then some p.2 else none := by
      simp only [bindKey, means, boundText?, Option.none_or, own]
    have rest := ih fun q hq => covered q (List.mem_cons_of_mem _ hq)
    rw [List.map_cons, List.reverse_cons, List.find?_append, Option.map_or, ← rest]
    change boundText? ((a.bindKey versionId filename p.1.keyPart p.2).rows ++ _) e.id = _
    rw [boundText?_append, first]
    refine congrArg (Option.or _) ?_
    by_cases key : Key.normalize p.1.keyPart = e.key
    · simp [key]
    · simp [key]

/-- What is bound to an entry by the results for one file alone is what they bind to it. -/
theorem boundText?_bindResults {entryId : RowId} {results : List (String × List (Option String))}
    {p : String × List (Option String)} (mem : p ∈ results)
    (only : ∀ q ∈ results, q ≠ p →
      boundText? (a.bindFile versionId files q.1 q.2).rows entryId = none) :
    boundText? (a.bindResults versionId files results).rows entryId =
      boundText? (a.bindFile versionId files p.1 p.2).rows entryId := by
  induction results with
  | nil => cases mem
  | cons q r ih =>
    rw [bindResults, Binding.rows_append, boundText?_append]
    by_cases later : p ∈ r
    · rw [ih later fun q' hq' => only q' (List.mem_cons_of_mem _ hq')]
      by_cases same : q = p
      · rw [same, Option.or_self]
      · rw [only q List.mem_cons_self same, Option.or_none]
    · obtain rfl : p = q := (List.mem_cons.mp mem).resolve_right later
      have none : boundText? (a.bindResults versionId files r).rows entryId = none := by
        rw [boundText?_eq_none_iff]
        intro row hrow
        obtain ⟨q, hq, hrow⟩ := mem_rows_bindResults_iff_bindFile.mp hrow
        have differs : q ≠ p := fun same => later (same ▸ hq)
        exact boundText?_eq_none_iff.mp (only q (List.mem_cons_of_mem _ hq) differs) row hrow
      rw [none, Option.none_or]

/-- Where every key has its own entry, the last text of a key of a file is bound to the entry of
the key. -/
theorem boundText?_batch (ha : a.Consistent) (names : (files.map (·.filename)).Nodup)
    (covers : a.CoversKeys versionId files) {texts : SourceFile → List String} {f : SourceFile}
    (hf : f ∈ files) (he : e ∈ a.entries.rows) (version : e.versionId = versionId)
    (file : e.file = some f.filename) :
    boundText? (a.batch versionId texts files) e.id =
      ((f.keys.zip (texts f)).reverse.find? (Key.normalize ·.1.keyPart == e.key)).map (·.2) := by
  have own : (f.filename, (texts f).map some) ∈ (alignedTexts texts files).entries :=
    (mem_entries_alignedTexts_iff names).mpr ⟨f, hf, rfl⟩
  rw [batch, boundText?_bindResults own, bindFile_of_mem names hf, List.zip_map_right]
  · exact boundText?_bindKeys ha he version file fun p hp => covers f hf p.1 (List.of_mem_zip hp).1
  · intro q hq differs
    obtain ⟨g, hg, rfl⟩ := (mem_entries_alignedTexts_iff names).mp hq
    rw [bindFile_of_mem names hg, List.zip_map_right, boundText?_eq_none_iff]
    -- The keys of another file mean entries of that file.
    rintro row hrow same
    obtain ⟨p, hp, -, r, means, id⟩ := mem_rows_bindKeys_iff.mp hrow
    obtain ⟨p, hzip, rfl⟩ := List.mem_map.mp hp
    obtain ⟨e', he', version', file', key'⟩ := covers g hg p.1 (List.of_mem_zip hzip).1
    obtain rfl := Option.some.inj (means.symm.trans (resolve?_of_mem ha he' version' file' key'))
    obtain rfl : e' = e := ha.entries.unique.eq_of_key_eq he' he (id.trans same)
    have filename : g.filename = f.filename := Option.some.inj (file'.symm.trans file)
    obtain rfl : g = f := List.inj_on_of_nodup_map names hg hf filename
    exact differs rfl

/-! ### The first text is stored -/

/-- A line that becomes an entry is the first of its file and key. -/
theorem find?_of_mem_distinctLines {lines : List SourceLine} {line : SourceLine}
    (mem : line ∈ distinctLines lines) :
    lines.find? (fun l => l.file == line.file && l.key == line.key) = some line := by
  rw [← find?_distinctLines fun l l' file key => by rw [file, key]]
  have apart := pairwise_firstLines .current lines
  rw [firstLines_current] at apart
  have distinct : ((distinctLines lines).map fun l => (l.file, l.key)).Nodup := by
    refine List.pairwise_map.mpr (apart.imp fun {l l'} differs same => ?_)
    rw [sameKey_current, Bool.eq_false_iff] at differs
    simp_all
  -- What is found has the file and the key of the line, which no other of these lines has.
  cases found : (distinctLines lines).find? (fun l => l.file == line.file && l.key == line.key) with
  | none => simpa using List.find?_eq_none.mp found line mem
  | some l =>
    have same := List.find?_some found
    simp only [Bool.and_eq_true, beq_iff_eq] at same
    rw [List.inj_on_of_nodup_map distinct (List.mem_of_find?_eq_some found) mem
      (Prod.ext same.1 same.2)]

end Archive

namespace PlainFiles

variable {files : List SourceFile} (plain : PlainFiles files) {f : SourceFile} (hf : f ∈ files)
  {key : String}

include plain hf

theorem normalize_of_mem_pairs {p : KeyInfo × String} (hp : p ∈ f.pairs) :
    Key.normalize p.1.keyPart = p.1.keyPart :=
  plain.normalized f hf p.1 (List.of_mem_zip hp).1

/-- Among the lines of plain files, the first of a file and key has the first text of the key. -/
theorem find?_sourceLines :
    (sourceLines files).find? (fun l => l.file == f.filename && l.key == key) =
      (f.firstText? key).map fun text => ⟨f.filename, key, text⟩ := by
  have ofFile : (sourceLines files).find? (fun l => l.file == f.filename && l.key == key) =
      f.lines.find? (·.key == key) := by
    rw [← ProperFiles.filter_flatMap_lines plain.names hf, List.find?_filter, sourceLines_eq_flatMap]
    exact List.find?_congr fun l _ => by
      rw [Bool.decide_and, Bool.decide_eq_true, Bool.decide_eq_true]
  have spelled : f.pairs.find? (Key.normalize ·.1.keyPart == key) =
      f.pairs.find? (·.1.keyPart == key) :=
    List.find?_congr fun p hp => by rw [plain.normalize_of_mem_pairs hf hp]
  rw [ofFile, SourceFile.lines, List.find?_map, Function.comp_def, spelled, SourceFile.firstText?,
    Option.map_map]
  cases found : f.pairs.find? (·.1.keyPart == key) with
  | none => rfl
  | some p =>
    have same : p.1.keyPart = key := by simpa using List.find?_some found
    have normal := plain.normalize_of_mem_pairs hf (List.mem_of_find?_eq_some found)
    rw [same] at normal
    simp [normal, same]

/-- What is done to all texts is done to the last text of a key. -/
theorem find?_reverse_zip (g : String → String) :
    ((f.keys.zip (f.texts.map g)).reverse.find? (Key.normalize ·.1.keyPart == key)).map (·.2) =
      (f.lastText? key).map g := by
  have spelled : f.pairs.reverse.find? (Key.normalize ·.1.keyPart == key) =
      f.pairs.reverse.find? (·.1.keyPart == key) :=
    List.find?_congr fun p hp => by
      rw [plain.normalize_of_mem_pairs hf (List.mem_reverse.mp hp)]
  rw [List.zip_map_right, ← List.map_reverse, List.find?_map, Option.map_map, SourceFile.lastText?,
    Option.map_map, ← spelled]
  rfl

end PlainFiles

/-- A key has a last text exactly if it has a first one. -/
theorem SourceFile.isSome_lastText? (f : SourceFile) (key : String) :
    (f.lastText? key).isSome = (f.firstText? key).isSome := by
  rw [lastText?, firstText?, Option.isSome_map, Option.isSome_map, Bool.eq_iff_iff,
    List.find?_isSome, List.find?_isSome]
  simp only [List.mem_reverse]

/-! ### The first version of an archive -/

/-- An archive holds one version, of the mod of a name, with the first lines of its files, and no
rendering. -/
structure Archive.FirstVersion (a : Archive) (modName : String) (files : List SourceFile)
    (now : Millis) (v : VersionRow) : Prop where
  consistent : a.Consistent
  current : a.layout = .current
  mod : ∃ m, a.mod? modName = some m ∧ m.id = v.modId
  versions : a.versions.rows = [v]
  contents : a.entries.rows.map (·.content) =
    (distinctLines (sourceLines files)).map (·.content)
  renderings : a.renderings.rows = []
  time : v.createdAt ≤ now

namespace Archive.FirstVersion

variable {a b : Archive} {modName : String} {files : List SourceFile} {now : Millis}
  {v : VersionRow} (first : a.FirstVersion modName files now v) {e : EntryRow}

include first

theorem versionId_eq (he : e ∈ a.entries.rows) : e.versionId = v.id := by
  have mem := first.consistent.versionOfEntry e he
  rw [first.versions] at mem
  simpa using mem

theorem notAfter : a.NotAfter now where
  versions w hw := by
    rw [first.versions] at hw
    rw [List.mem_singleton.mp hw]
    exact first.time
  renderings t ht := by
    rw [first.renderings] at ht
    cases ht

theorem latestVersionNamed? : a.latestVersionNamed? modName = some v := by
  obtain ⟨m, found, id⟩ := first.mod
  have own : [v].filter (·.modId == v.modId) = [v] := by simp
  rw [Archive.latestVersionNamed?, found, Option.bind_some, latestVersion?, versionsOf,
    first.versions, id, own]
  rfl

/-- An entry holds a line that becomes an entry. -/
theorem exists_line (he : e ∈ a.entries.rows) :
    ∃ line ∈ distinctLines (sourceLines files), e.content = line.content := by
  have mem : e.content ∈ a.entries.rows.map (·.content) := List.mem_map_of_mem he
  rw [first.contents] at mem
  obtain ⟨line, hline, same⟩ := List.mem_map.mp mem
  exact ⟨line, hline, same.symm⟩

variable (plain : PlainFiles files)

include plain

/-- What is stored for a key is the first text of it. -/
theorem firstText? (he : e ∈ a.entries.rows) :
    ∃ f ∈ files, e.file = some f.filename ∧ f.firstText? e.key = some e.text := by
  obtain ⟨line, hline, same⟩ := first.exists_line he
  obtain ⟨file, key, text⟩ := EntryRow.content_eq_iff.mp same
  obtain ⟨f, hf, mem⟩ := mem_sourceLines_iff.mp ((distinctLines_sublist _).subset hline)
  have ofFile := file_of_mem_lines mem
  refine ⟨f, hf, by rw [file, ofFile], ?_⟩
  have found := find?_of_mem_distinctLines hline
  rw [ofFile, plain.find?_sourceLines hf] at found
  obtain ⟨t, ht, whole⟩ := Option.map_eq_some_iff.mp found
  rw [key, text, ← show t = line.text from congrArg SourceLine.text whole]
  exact ht

/-- Every key of the files has its own entry. -/
theorem coversKeys : a.CoversKeys v.id files := by
  intro f hf k hk
  obtain ⟨text, hp⟩ := SourceFile.exists_mem_pairs (plain.aligned f hf) hk
  have mem : ⟨f.filename, Key.normalize k.keyPart, text⟩ ∈ sourceLines files :=
    mem_sourceLines_iff.mpr ⟨f, hf, mem_lines_of_mem_pairs hp⟩
  -- The line of the key may have been dropped, for an earlier one of the same key.
  obtain ⟨line, kept, same⟩ := exists_mem_firstLines .current mem
  rw [firstLines_current] at kept
  rw [sameKey_current, Bool.and_eq_true, beq_iff_eq, beq_iff_eq] at same
  have stored : line.content ∈ a.entries.rows.map (·.content) := by
    rw [first.contents]
    exact List.mem_map_of_mem kept
  obtain ⟨e, he, content⟩ := List.mem_map.mp stored
  obtain ⟨file, key, -⟩ := EntryRow.content_eq_iff.mp content
  exact ⟨e, he, first.versionId_eq he, by rw [file, ← same.1], by rw [key, ← same.2]⟩

/-- What is read back for a key, once the files are rendered by `g`, is the rendering of its last
text. -/
theorem lastRendering? {language : String} {g : String → String}
    (stored : putRenderings language now (a.batch v.id (fun f => f.texts.map g) files) a = .ok b)
    (he : e ∈ a.entries.rows) {f : SourceFile} (hf : f ∈ files)
    (file : e.file = some f.filename) {text : String} (last : f.lastText? e.key = some text) :
    Archive.lastRendering? (b.renderingHistory v.modId f.filename language) e.key =
      some (g text) := by
  have version := first.versionId_eq he
  have bound : boundText? (a.batch v.id (fun f => f.texts.map g) files) e.id = some (g text) := by
    rw [boundText?_batch first.consistent plain.names (first.coversKeys plain) hf he version file,
      plain.find?_reverse_zip hf, last, Option.map_some]
  have inFile : a.InFile v.modId f.filename e :=
    ⟨he, ⟨v, by rw [first.versions]; exact List.mem_cons_self, version.symm, rfl⟩, file⟩
  refine lastRendering?_of_bound_of_new stored first.consistent (fun e' inFile' key' _ => ?_) inFile
    rfl bound first.notAfter fun t ht => ?_
  · exact first.consistent.entry_unique inFile'.mem he
      ((first.versionId_eq inFile'.mem).trans version.symm) (inFile'.file.trans file.symm) key'
  · rw [first.renderings] at ht
    cases ht

section ReadBack

variable {language : String} {g : String → String}
  (stored : putRenderings language now (a.batch v.id (fun f => f.texts.map g) files) a = .ok b)

include stored

omit plain in
theorem latestVersionNamed?_putRenderings : b.latestVersionNamed? modName = some v := by
  rw [putRenderings_frame stored]
  exact first.latestVersionNamed?

omit first plain in
theorem entries_putRenderings : b.entries.rows = a.entries.rows := by
  rw [putRenderings_frame stored]

/-- What is read back of a key is its first text and the rendering of its last one. -/
theorem texts_of_mem_archivedEntries {path : String} {item : ArchivedEntry}
    (mem : item ∈ b.archivedEntries modName path language) :
    ∃ f ∈ files, f.filename = baseName path ∧ f.firstText? item.key = some item.source ∧
      item.rendering = (f.lastText? item.key).map g := by
  rw [archivedEntries_of_latest (first.latestVersionNamed?_putRenderings stored)] at mem
  obtain ⟨e, he, rfl⟩ := List.mem_map.mp mem
  obtain ⟨he, -, file⟩ := mem_entriesOfFile_iff.mp he
  rw [entries_putRenderings stored] at he
  obtain ⟨f, hf, file', text⟩ := first.firstText? plain he
  have name : f.filename = baseName path := Option.some.inj (file'.symm.trans file)
  obtain ⟨last, found⟩ : ∃ last, f.lastText? e.key = some last := by
    rw [← Option.isSome_iff_exists, f.isSome_lastText?, text, Option.isSome_some]
  have rendering := first.lastRendering? plain stored he hf file' found
  rw [name] at rendering
  exact ⟨f, hf, name, text, rendering.trans (by rw [found, Option.map_some])⟩

/-- Every key of the files is read back. -/
theorem exists_mem_archivedEntries {f : SourceFile} (hf : f ∈ files) {k : KeyInfo}
    (hk : k ∈ f.keys) :
    ∃ item ∈ b.archivedEntries modName f.filename language, item.key = k.keyPart := by
  obtain ⟨e, he, version, file, key⟩ := first.coversKeys plain f hf k hk
  rw [← entries_putRenderings stored] at he
  rw [archivedEntries_of_latest (first.latestVersionNamed?_putRenderings stored),
    baseName_eq_self (plain.plain f hf)]
  exact ⟨_, List.mem_map_of_mem (mem_entriesOfFile_iff.mpr ⟨he, version, file⟩),
    key.trans (plain.normalized f hf k hk)⟩

/-- Every rendering belongs to the text beside it exactly if the first and the last text of every
key are rendered alike. -/
theorem rendering_eq_iff :
    (∀ path, ∀ item ∈ b.archivedEntries modName path language,
        item.rendering = some (g item.source)) ↔
      ∀ f ∈ files, ∀ key, (f.lastText? key).map g = (f.firstText? key).map g := by
  constructor
  · intro belongs f hf key
    cases text : f.firstText? key with
    | none =>
      have none : (f.lastText? key).isSome = false := by
        rw [f.isSome_lastText?, text, Option.isSome_none]
      rw [Option.isSome_eq_false_iff, Option.isNone_iff_eq_none] at none
      rw [none]
    | some t =>
      obtain ⟨p, found, -⟩ := Option.map_eq_some_iff.mp text
      obtain rfl : p.1.keyPart = key := by simpa using List.find?_some found
      have hk : p.1 ∈ f.keys := (List.of_mem_zip (List.mem_of_find?_eq_some found)).1
      obtain ⟨item, mem, own⟩ := first.exists_mem_archivedEntries plain stored hf hk
      obtain ⟨f', hf', name, first', last'⟩ := first.texts_of_mem_archivedEntries plain stored mem
      rw [baseName_eq_self (plain.plain f hf)] at name
      obtain rfl : f' = f := List.inj_on_of_nodup_map plain.names hf' hf name
      rw [own] at first' last'
      rw [← last', belongs f'.filename item mem, ← text, first', Option.map_some]
  · intro alike path item mem
    obtain ⟨f, hf, -, text, rendering⟩ := first.texts_of_mem_archivedEntries plain stored mem
    rw [rendering, alike f hf, text, Option.map_some]

end ReadBack

end Archive.FirstVersion

/-! ### Updates of an empty archive -/

section Update

variable {a b : Archive} {access : Access} {modName language : String} {remoteId : Option String}
  {files : List SourceFile} {translator : Translator} {outcome : UpdateOutcome}
  {g : String → String}

/-- Without mods there are neither versions nor entries nor renderings. -/
theorem Archive.Consistent.rows_eq_nil_of_mods (ha : a.Consistent) (empty : a.mods.rows = []) :
    a.versions.rows = [] ∧ a.entries.rows = [] ∧ a.renderings.rows = [] := by
  have versions : a.versions.rows = [] := List.eq_nil_iff_forall_not_mem.mpr fun v hv => by
    simpa [empty] using ha.modOfVersion v hv
  have entries : a.entries.rows = [] := List.eq_nil_iff_forall_not_mem.mpr fun e he => by
    simpa [versions] using ha.versionOfEntry e he
  exact ⟨versions, entries, List.eq_nil_iff_forall_not_mem.mpr fun t ht => by
    simpa [entries] using ha.entryOfRendering t ht⟩

/-- Where nothing is in the archive every text is rendered. -/
theorem outputs_eq_map_of_empty (empty : a.mods.rows = []) (plain : PlainFiles files)
    (rendered : (a.planOf modName language files).RenderedBy translator g) {results : FileResults}
    (answered : (a.planOf modName language files).Answered translator results) {f : SourceFile}
    (hf : f ∈ files) : a.outputs modName language results f = f.texts.map g := by
  have history : a.archivedEntries modName f.filename language = [] := by
    simp [Archive.archivedEntries, Archive.latestVersionNamed?, Archive.mod?, empty]
  have planned : classify f (a.archivedEntries modName f.filename language) ∈
      (a.planOf modName language files).files := List.mem_map_of_mem hf
  have prefixes := rendered.dirtyTexts answered planned
  rw [FilePlan.dirtyTexts, List.map_map] at prefixes
  refine outputs_eq_map (plain.aligned f hf) fun m hm => ?_
  refine rendering_of_mem_fill (fun e he clean => ?_) prefixes hm
  -- Without a history nothing is clean.
  obtain ⟨p, -, rfl⟩ := List.mem_map.mp he
  rw [history] at clean
  cases clean

/-- The first update of an empty archive stores the first version, and renders it as one batch. -/
theorem Action.exists_firstVersion_of_update (ha : a.Consistent) (empty : a.mods.rows = [])
    (plain : PlainFiles files)
    (rendered : (a.planOf modName language files).RenderedBy translator g)
    (ends : (update modName remoteId files language translator).Ends access a outcome b) :
    ∃ v d, d.FirstVersion modName files access.now v ∧
      Archive.putRenderings language access.now (d.batch v.id (fun f => f.texts.map g) files) d =
        .ok b := by
  obtain ⟨versions, entries, renderings⟩ := ha.rows_eq_nil_of_mods empty
  obtain ⟨-, current, results, answered, versionId, report, archived, -⟩ :=
    (ends_update_iff ha).mp ends
  have normal : ((a.planOf modName language files).merge results).sourceFiles = files := by
    rw [sourceFiles_merge_planOf]
    refine (List.map_congr_left fun f hf => ?_).trans (List.map_id files)
    exact SourceFile.normalized_eq_self (plain.aligned f hf) (plain.normalized f hf)
  obtain ⟨modId, c, s, d, named, stored, aligned, rfl⟩ := ends_archiveMerged_iff.mp archived
  rw [normal] at stored aligned
  rw [alignedRenderings_merge_planOf] at aligned
  have hc := ha.ensureNamedMod named
  obtain ⟨⟨m, hm, rfl⟩, framec⟩ := ensureNamedMod_frame named
  have none : c.versions.rows = [] := by rw [framec]; exact versions
  -- Without versions no fingerprint is known, so a version is added.
  obtain ⟨-, ⟨w, known, -, -⟩ | ⟨-, -, -, hd⟩⟩ := ends_snapshotChecked_iff.mp stored
  · simp [Archive.versionByHash?, none] at known
  · obtain ⟨-, -, -, newVersions, ⟨new, news, rows, -⟩, frame⟩ :=
      Archive.exists_newEntries_addVersion hc hd
    have framed := Archive.addVersion_frame hd
    have currentd : d.layout = .current := by rw [framed, framec]; exact current
    have touched : (d.mod? modName).map (·.id) = (c.mod? modName).map (·.id) :=
      Archive.map_id_mod?_of_touched (by rw [frame]) modName
    rw [show c.mod? modName = some m from hm] at touched
    obtain ⟨m', hm', id⟩ := Option.map_eq_some_iff.mp touched
    refine ⟨⟨s.versionId, m.id, snapshotHash files, access.now⟩, d, ?_, ?_⟩
    · exact {
        consistent := hc.addVersion hd
        current := currentd
        mod := ⟨m', hm', id⟩
        versions := by rw [newVersions, none]; rfl
        contents := by
          rw [rows, show c.entries.rows = [] by rw [framec]; exact entries]
          exact news.contents
        renderings := by rw [framed, framec]; exact renderings
        time := Int.le_refl _ }
    · have batch := putRenderings_of_archiveAligned currentd aligned
      rwa [Archive.batch_congr fun f hf =>
        outputs_eq_map_of_empty empty plain rendered answered hf] at batch

/-- After the first update of an empty archive by a translator that renders every text by `g`, each
file is read back with the first text of every key beside the rendering of the last one. So every
rendering belongs to the text beside it exactly if `g` renders the first and the last text of every
key alike. -/
theorem Action.update_renders_stored_texts_iff (ha : a.Consistent) (empty : a.mods.rows = [])
    (plain : PlainFiles files)
    (rendered : (a.planOf modName language files).RenderedBy translator g)
    (ends : (update modName remoteId files language translator).Ends access a outcome b) :
    (∀ path access', (archivedEntries modName path language).Ends access' b
      (b.archivedEntries modName path language) b) ∧
    (∀ path, ∀ item ∈ b.archivedEntries modName path language, ∃ f ∈ files,
      f.filename = baseName path ∧ f.firstText? item.key = some item.source ∧
        item.rendering = (f.lastText? item.key).map g) ∧
    ((∀ path, ∀ item ∈ b.archivedEntries modName path language,
        item.rendering = some (g item.source)) ↔
      ∀ f ∈ files, ∀ key, (f.lastText? key).map g = (f.firstText? key).map g) := by
  obtain ⟨v, d, first, stored⟩ := exists_firstVersion_of_update ha empty plain rendered ends
  have current : b.layout = .current := by
    rw [Archive.putRenderings_frame stored]
    exact first.current
  exact ⟨fun path access' => (ends_archivedEntries_iff (ha.update ends)).mpr ⟨current, rfl, rfl⟩,
    fun path item mem => first.texts_of_mem_archivedEntries plain stored mem,
    first.rendering_eq_iff plain stored⟩

/-- Where a key is repeated with its text, all renderings belong to the texts beside them. -/
theorem Action.update_renders_stored_texts_iff_of_equal_texts :
    let files : List SourceFile :=
      [⟨"a.yml", [⟨"k", none⟩, ⟨"l", none⟩, ⟨"k", none⟩], ["X", "Y", "X"]⟩]
    Archive.fresh.Consistent ∧ Archive.fresh.mods.rows = [] ∧ PlainFiles files ∧
    (Archive.fresh.planOf "Alpha" "ko" files).RenderedBy (.rendering ("ko:" ++ ·)) ("ko:" ++ ·) ∧
    ∃ outcome b, (update "Alpha" none files "ko" (.rendering ("ko:" ++ ·))).Ends { now := 1 } .fresh
        outcome b ∧
      b.archivedEntries "Alpha" "a.yml" "ko" =
        [⟨"k", "X", some "ko:X"⟩, ⟨"l", "Y", some "ko:Y"⟩] ∧
      ∀ path, ∀ item ∈ b.archivedEntries "Alpha" path "ko",
        item.rendering = some ("ko:" ++ item.source) := by
  intro files
  have consistent : Archive.fresh.Consistent := .of_layout (.inr rfl)
  have plain : PlainFiles files := ⟨by decide, by decide, by simp [files], by decide +kernel⟩
  have rendered : (Archive.fresh.planOf "Alpha" "ko" files).RenderedBy (.rendering ("ko:" ++ ·))
      ("ko:" ++ ·) := renderedBy_rendering plain.names
  obtain ⟨succeeds, read⟩ :
      (update "Alpha" none files "ko" (.rendering ("ko:" ++ ·)) { now := 1 } .fresh).result.isOk =
          true ∧
        (update "Alpha" none files "ko" (.rendering ("ko:" ++ ·)) { now := 1 }
            .fresh).archive.archivedEntries "Alpha" "a.yml" "ko" =
          [⟨"k", "X", some "ko:X"⟩, ⟨"l", "Y", some "ko:Y"⟩] := by decide +kernel
  obtain ⟨outcome, ends⟩ := exists_ends_of_isOk succeeds
  have alike : ∀ f ∈ files, ∀ key,
      (f.lastText? key).map ("ko:" ++ ·) = (f.firstText? key).map ("ko:" ++ ·) := by
    intro f hf key
    rw [List.mem_singleton.mp hf]
    by_cases k : "k" = key <;> by_cases l : "l" = key <;>
      simp [SourceFile.lastText?, SourceFile.firstText?, SourceFile.pairs, k, l]
  obtain ⟨-, -, belongs⟩ := update_renders_stored_texts_iff consistent rfl plain rendered ends
  exact ⟨consistent, rfl, plain, rendered, outcome, _, ends, read, belongs.mpr alike⟩

/-- Where a key is repeated with another text, the first text stands beside the rendering of the
second. -/
theorem Action.update_renders_other_text :
    let files : List SourceFile := [⟨"a.yml", [⟨"k", none⟩, ⟨"k", none⟩], ["X", "Y"]⟩]
    Archive.fresh.mods.rows = [] ∧ PlainFiles files ∧
    (Archive.fresh.planOf "Alpha" "ko" files).RenderedBy (.rendering ("ko:" ++ ·)) ("ko:" ++ ·) ∧
    ∃ outcome b, (update "Alpha" none files "ko" (.rendering ("ko:" ++ ·))).Ends { now := 1 } .fresh
        outcome b ∧
      b.archivedEntries "Alpha" "a.yml" "ko" = [⟨"k", "X", some "ko:Y"⟩] := by
  intro files
  have plain : PlainFiles files := ⟨by decide, by decide, by simp [files], by decide +kernel⟩
  obtain ⟨succeeds, read⟩ :
      (update "Alpha" none files "ko" (.rendering ("ko:" ++ ·)) { now := 1 } .fresh).result.isOk =
          true ∧
        (update "Alpha" none files "ko" (.rendering ("ko:" ++ ·)) { now := 1 }
            .fresh).archive.archivedEntries "Alpha" "a.yml" "ko" =
          [⟨"k", "X", some "ko:Y"⟩] := by decide +kernel
  obtain ⟨outcome, ends⟩ := exists_ends_of_isOk succeeds
  exact ⟨rfl, plain, renderedBy_rendering plain.names, outcome, _, ends, read⟩

end Update

end LocalizationMemory
