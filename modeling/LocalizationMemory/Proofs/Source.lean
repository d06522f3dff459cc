import Mathlib.Data.List.Nodup
import Mathlib.Data.List.TakeWhile
import LocalizationMemory.Archive.Versions

/-!
# Proper source files

The source files of a mod are proper if every key has a text, no two files share a name,
no name holds a slash, and the keys of a file are in normal form and differ. The lines
of proper files are told apart by file and key, and those of one file stand together in
the order of its keys.

## Main definitions

* `ProperFiles` — what is asked of a list of source files
* `DistinctFiles` — files whose names differ, and whose keys do
* `SourceFile.lines` — the lines of one file
* `SourceFile.normalized` — a file with its keys in normal form

## Main results

* `ProperFiles.baseName_filename` — the name of a proper file is its name without
  directories
* `DistinctFiles.pairwise_sourceLines` — file and key tell the lines apart
* `ProperFiles.filter_sourceLines` — the lines of one file, in order
-/

namespace LocalizationMemory

/-- A list of source files that are aligned, have plain and distinct names, and have
normalized keys that are distinct within a file. -/
structure ProperFiles (files : List SourceFile) : Prop where
  nonempty : files ≠ []
  aligned : ∀ f ∈ files, f.keys.length = f.texts.length
  names : (files.map (·.filename)).Nodup
  plain : ∀ f ∈ files, ∀ c ∈ f.filename.toList, c ≠ '/' ∧ c ≠ '\\'
  normalized : ∀ f ∈ files, ∀ k ∈ f.keys, Key.normalize k.keyPart = k.keyPart
  keys : ∀ f ∈ files, (f.keys.map (·.keyPart)).Nodup

theorem properFiles_iff {files : List SourceFile} :
    ProperFiles files ↔ files ≠ [] ∧ (∀ f ∈ files, f.keys.length = f.texts.length) ∧
      (files.map (·.filename)).Nodup ∧
      (∀ f ∈ files, f.filename.toList.all (fun c => c != '/' && c != '\\') = true) ∧
      (∀ f ∈ files, ∀ k ∈ f.keys, Key.normalize k.keyPart = k.keyPart) ∧
      ∀ f ∈ files, (f.keys.map (·.keyPart)).Nodup := by
  simp only [List.all_eq_true, Bool.and_eq_true, bne_iff_ne]
  constructor
  · exact fun h => ⟨h.nonempty, h.aligned, h.names, h.plain, h.normalized, h.keys⟩
  · rintro ⟨nonempty, aligned, names, plain, normalized, keys⟩
    exact ⟨nonempty, aligned, names, plain, normalized, keys⟩

instance (files : List SourceFile) : Decidable (ProperFiles files) :=
  decidable_of_iff _ properFiles_iff.symm

/-- The lines of one file as they are to be stored. -/
def SourceFile.lines (f : SourceFile) : List SourceLine :=
  f.pairs.map fun p => ⟨f.filename, Key.normalize p.1.keyPart, p.2⟩

theorem sourceLines_eq_flatMap (files : List SourceFile) :
    sourceLines files = files.flatMap (·.lines) := rfl

/-- A file without what has no counterpart, and with its keys in normal form. -/
def SourceFile.normalized (f : SourceFile) : SourceFile :=
  { filename := f.filename
    keys := f.pairs.map fun p => ⟨Key.normalize p.1.keyPart, p.1.lineNum⟩
    texts := f.pairs.map (·.2) }

namespace SourceFile

variable {f : SourceFile} (aligned : f.keys.length = f.texts.length)

include aligned

theorem map_fst_pairs : f.pairs.map (·.1) = f.keys := List.map_fst_zip (Nat.le_of_eq aligned)

theorem map_snd_pairs : f.pairs.map (·.2) = f.texts :=
  List.map_snd_zip (Nat.le_of_eq aligned.symm)

/-- Every key of a file in which nothing lacks a counterpart has a text. -/
theorem exists_mem_pairs {k : KeyInfo} (hk : k ∈ f.keys) : ∃ text, (k, text) ∈ f.pairs := by
  rw [← map_fst_pairs aligned] at hk
  obtain ⟨p, hp, rfl⟩ := List.mem_map.mp hk
  exact ⟨p.2, hp⟩

/-- A file in which nothing lacks a counterpart and the keys are in normal form is normal. -/
theorem normalized_eq_self (normal : ∀ k ∈ f.keys, Key.normalize k.keyPart = k.keyPart) :
    f.normalized = f := by
  have keys : f.normalized.keys = f.keys := by
    rw [normalized, ← map_fst_pairs aligned]
    exact List.map_congr_left fun p hp => by rw [normal p.1 (List.of_mem_zip hp).1]
  exact congrArg₂ (SourceFile.mk f.filename) keys (map_snd_pairs aligned)

end SourceFile

/-- A name without slashes is left as it is. -/
theorem baseName_eq_self {name : String} (plain : ∀ c ∈ name.toList, c ≠ '/' ∧ c ≠ '\\') :
    baseName name = name := by
  have all : ∀ c ∈ name.toList.reverse, (c != '/' && c != '\\') = true := by
    intro c hc
    obtain ⟨slash, backslash⟩ := plain c (List.mem_reverse.mp hc)
    simp [slash, backslash]
  rw [baseName, List.takeWhile_eq_self_iff.mpr all, List.reverse_reverse, String.ofList_toList]

theorem file_of_mem_lines {f : SourceFile} {line : SourceLine} (h : line ∈ f.lines) :
    line.file = f.filename := by
  obtain ⟨p, -, rfl⟩ := List.mem_map.mp h
  rfl

theorem mem_lines_of_mem_pairs {f : SourceFile} {info : KeyInfo} {text : String}
    (h : (info, text) ∈ f.pairs) : ⟨f.filename, Key.normalize info.keyPart, text⟩ ∈ f.lines :=
  List.mem_map.mpr ⟨(info, text), h, rfl⟩

theorem mem_sourceLines_iff {files : List SourceFile} {line : SourceLine} :
    line ∈ sourceLines files ↔ ∃ f ∈ files, line ∈ f.lines :=
  List.mem_flatMap

/-- A list of source files with distinct names, whose keys are distinct within a file once they
are in normal form. Only keys that have a text count. -/
structure DistinctFiles (files : List SourceFile) : Prop where
  names : (files.map (·.filename)).Nodup
  keys : ∀ f ∈ files, (f.lines.map (·.key)).Nodup

instance (files : List SourceFile) : Decidable (DistinctFiles files) :=
  decidable_of_iff ((files.map (·.filename)).Nodup ∧ ∀ f ∈ files, (f.lines.map (·.key)).Nodup)
    ⟨fun h => ⟨h.1, h.2⟩, fun h => ⟨h.names, h.keys⟩⟩

/-- File and key tell the lines apart. -/
theorem DistinctFiles.pairwise_sourceLines {files : List SourceFile} (h : DistinctFiles files) :
    (sourceLines files).Pairwise fun l l' => l.file = l'.file → l.key ≠ l'.key := by
  rw [sourceLines_eq_flatMap]
  refine List.pairwise_flatMap.mpr ⟨fun f hf => ?_, ?_⟩
  · refine List.Pairwise.imp ?_ (List.pairwise_map.mp (h.keys f hf))
    intro l l' differ _
    exact differ
  · apply List.Pairwise.imp ?_ (List.pairwise_map.mp h.names)
    intro f g differ l hl l' hl' same
    rw [file_of_mem_lines hl, file_of_mem_lines hl'] at same
    exact absurd same differ

namespace ProperFiles

variable {files : List SourceFile} (h : ProperFiles files) {f : SourceFile} (hf : f ∈ files)

include h hf

theorem baseName_filename : baseName f.filename = f.filename := baseName_eq_self (h.plain f hf)

theorem map_fst_pairs : f.pairs.map (·.1) = f.keys :=
  SourceFile.map_fst_pairs (h.aligned f hf)

/-- Something made of each key and its text, beside the keys. -/
theorem zip_map_pairs {α : Type} (g : KeyInfo × String → α) :
    f.keys.zip (f.pairs.map g) = f.pairs.map fun p => (p.1, g p) := by
  rw [← h.map_fst_pairs hf, List.zip_map']

theorem normalize_of_mem_pairs {p : KeyInfo × String} (hp : p ∈ f.pairs) :
    Key.normalize p.1.keyPart = p.1.keyPart := by
  apply h.normalized f hf p.1
  rw [← h.map_fst_pairs hf]
  exact List.mem_map_of_mem hp

/-- A proper file is in normal form. -/
theorem normalized_eq : f.normalized = f :=
  SourceFile.normalized_eq_self (h.aligned f hf) (h.normalized f hf)

theorem nodup_keyPart_pairs : (f.pairs.map (·.1.keyPart)).Nodup := by
  have keys := h.keys f hf
  rw [← h.map_fst_pairs hf, List.map_map] at keys
  exact keys

/-- Within a file the key tells the lines apart. -/
theorem nodup_key_lines : (f.lines.map (·.key)).Nodup := by
  have same : f.lines.map (·.key) = f.pairs.map (·.1.keyPart) := by
    rw [SourceFile.lines, List.map_map]
    exact List.map_congr_left fun p hp => h.normalize_of_mem_pairs hf hp
  rw [same]
  exact h.nodup_keyPart_pairs hf

omit hf in
/-- Files of one name are one file. -/
theorem eq_of_filename {f f' : SourceFile} (hf : f ∈ files) (hf' : f' ∈ files)
    (same : f.filename = f'.filename) : f = f' :=
  List.inj_on_of_nodup_map h.names hf hf' same

omit h hf in
/-- Of files of distinct names, the lines of one name are those of the file. -/
theorem filter_flatMap_lines (names : (files.map (·.filename)).Nodup) (hf : f ∈ files) :
    (files.flatMap (·.lines)).filter (·.file == f.filename) = f.lines := by
  induction files with
  | nil => cases hf
  | cons g r ih =>
    obtain ⟨hg, hr⟩ := List.nodup_cons.mp names
    rw [List.flatMap_cons, List.filter_append]
    rcases List.mem_cons.mp hf with rfl | hf
    · have own : f.lines.filter (·.file == f.filename) = f.lines :=
        List.filter_eq_self.mpr fun line hline => by simp [file_of_mem_lines hline]
      have others : (r.flatMap (·.lines)).filter (·.file == f.filename) = [] := by
        apply List.filter_eq_nil_iff.mpr
        intro line hline same
        obtain ⟨g, hgr, hline⟩ := List.mem_flatMap.mp hline
        refine hg (List.mem_map.mpr ⟨g, hgr, ?_⟩)
        rw [← file_of_mem_lines hline, eq_of_beq same]
      rw [own, others, List.append_nil]
    · have others : g.lines.filter (·.file == f.filename) = [] := by
        apply List.filter_eq_nil_iff.mpr
        intro line hline same
        refine hg (List.mem_map.mpr ⟨f, hf, ?_⟩)
        rw [← eq_of_beq same, file_of_mem_lines hline]
      rw [others, List.nil_append, ih hr hf]

/-- The lines of one file stand in the order of its keys. -/
theorem filter_sourceLines : (sourceLines files).filter (·.file == f.filename) = f.lines :=
  filter_flatMap_lines h.names hf

omit hf in
/-- Proper files are distinct. -/
theorem distinct : DistinctFiles files := ⟨h.names, fun _ hf => h.nodup_key_lines hf⟩

end ProperFiles

end LocalizationMemory
