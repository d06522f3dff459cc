import LocalizationMemory.Proofs.Archive.Archiving
import LocalizationMemory.Proofs.Matching

/-!
# The entries for which texts are offered

Texts that rendering files offer are placed in two steps. In memory an index of all source
files points, for the key of a text, at the place of a key in a file; in the archive this key
of the file is looked up once more, among the entries of the version that was stored for the
files. If the keys of a file differ, both mean one entry. So an entry is bound to a text in a
language if the index points at its key for some text in this language, and then to the last
such text.

## Main definitions

* `EntryRow.StandsAt`, `KeyIndex.PointsAt` — the index of source files points at the key of an
  entry
* `EntryRow.IsOffered`, `EntryRow.IsOfferedLast` — the texts that are offered for an entry
* `Filled` — results that hold the last text for every place

## Main results

* `lastOffered?_standsAt_iff` — the last text for an entry is the last for its place
* `Matches.Tallies.results_filled` — results are filled once all texts are placed
* `Archive.bindResults_filled_whole` — nothing is left out when they are bound
* `Archive.boundText?_filled_iff`, `Archive.exists_hit_filled` — the texts that are bound, and
  how many
-/

namespace LocalizationMemory

variable {files : List SourceFile} {f : SourceFile} {offered : List OfferedText}
  {language : String}

/-! ### The place of an entry -/

/-- The entry is that of the key at a place of the source files. -/
def EntryRow.StandsAt (e : EntryRow) (files : List SourceFile) (place : String × Nat) : Prop :=
  ∃ f ∈ files, f.filename = place.1 ∧ ∃ info, f.keys[place.2]? = some info ∧
    e.file = some f.filename ∧ e.key = Key.normalize info.keyPart

/-- The index of the source files points, for a key, at the key of an entry. -/
def KeyIndex.PointsAt (files : List SourceFile) (rawKey : String) (e : EntryRow) : Prop :=
  ∃ place, (KeyIndex.ofFiles files).resolve? rawKey = some place ∧ e.StandsAt files place

/-- A text in a language is offered for the entry. -/
def EntryRow.IsOffered (e : EntryRow) (files : List SourceFile) (offered : List OfferedText)
    (language : String) : Prop :=
  ∃ o ∈ offered, o.language = language ∧ KeyIndex.PointsAt files o.key e

/-- The text is the one in a language that is offered last for the entry. -/
def EntryRow.IsOfferedLast (e : EntryRow) (files : List SourceFile) (offered : List OfferedText)
    (language text : String) : Prop :=
  ∃ earlier key later, offered = earlier ++ ⟨language, key, text⟩ :: later ∧
    KeyIndex.PointsAt files key e ∧
      ∀ o ∈ later, o.language = language → ¬ KeyIndex.PointsAt files o.key e

/-- Where every key has a text, the keys of a file differ as its lines do. -/
theorem DistinctFiles.nodup_keys (distinct : DistinctFiles files) (hf : f ∈ files)
    (aligned : f.keys.length = f.texts.length) :
    (f.keys.map fun info => Key.normalize info.keyPart).Nodup := by
  have keys := distinct.keys f hf
  rw [SourceFile.lines, List.map_map] at keys
  rw [← SourceFile.map_fst_pairs aligned, List.map_map]
  exact keys

section Places

variable (distinct : DistinctFiles files) (aligned : ∀ f ∈ files, f.keys.length = f.texts.length)

include distinct aligned

/-- An entry stands at one place. -/
theorem EntryRow.StandsAt.unique {e : EntryRow} {place place' : String × Nat}
    (h : e.StandsAt files place) (h' : e.StandsAt files place') : place = place' := by
  obtain ⟨f, hf, name, info, here, file, key⟩ := h
  obtain ⟨g, hg, name', info', there, file', key'⟩ := h'
  obtain rfl : f = g := by
    apply List.inj_on_of_nodup_map distinct.names hf hg
    exact Option.some.inj (file.symm.trans file')
  have position : place.2 = place'.2 := by
    obtain ⟨within, -⟩ := List.getElem?_eq_some_iff.mp here
    have nodup := distinct.nodup_keys hf (aligned f hf)
    refine (List.getElem?_inj (by rwa [List.length_map]) nodup).mp ?_
    rw [List.getElem?_map, List.getElem?_map, here, there, Option.map_some, Option.map_some, ← key,
      ← key']
  exact Prod.ext (name.symm.trans name') position

/-- The last text for the place of an entry is the last one for whose key the index points at the
key of the entry. -/
theorem lastOffered?_standsAt_iff {e : EntryRow} {text : String} :
    (∃ place, e.StandsAt files place ∧
      lastOffered? (KeyIndex.ofFiles files) offered language place = some text) ↔
    e.IsOfferedLast files offered language text := by
  simp only [lastOffered?_eq_some_iff]
  constructor
  · rintro ⟨place, stands, earlier, key, later, split, points, last⟩
    refine ⟨earlier, key, later, split, ⟨place, points, stands⟩, ?_⟩
    rintro o ho into ⟨place', points', stands'⟩
    rw [stands'.unique distinct aligned stands] at points'
    exact last o ho into points'
  · rintro ⟨earlier, key, later, split, ⟨place, points, stands⟩, last⟩
    exact ⟨place, stands, earlier, key, later, split, points,
      fun o ho into points' => last o ho into ⟨place, points', stands⟩⟩

end Places

/-- If a text is offered for an entry, there is one that is offered last. -/
theorem EntryRow.exists_isOfferedLast_iff (distinct : DistinctFiles files)
    (aligned : ∀ f ∈ files, f.keys.length = f.texts.length) {e : EntryRow} :
    (∃ text, e.IsOfferedLast files offered language text) ↔
      e.IsOffered files offered language := by
  constructor
  · rintro ⟨text, earlier, key, later, rfl, points, -⟩
    exact ⟨⟨language, key, text⟩, by simp, rfl, points⟩
  · rintro ⟨o, ho, into, place, points, stands⟩
    cases last : lastOffered? (KeyIndex.ofFiles files) offered language place with
    | some text =>
      exact ⟨text, (lastOffered?_standsAt_iff distinct aligned).mp ⟨place, stands, last⟩⟩
    | none => exact absurd points (lastOffered?_eq_none_iff.mp last o ho into)

/-! ### Results that hold the last texts -/

/-- Results hold the last text for every place of the files for which a text is offered. -/
structure Filled (files : List SourceFile) (offered : List OfferedText) (language : String)
    (results : AlignedResults) : Prop where
  filled : ∀ p ∈ results.entries, ∃ f ∈ files,
    p = (f.filename, Matches.filledPlaces files offered language f)
  reached : ∀ o ∈ offered, o.language = language →
    ∀ place, (KeyIndex.ofFiles files).resolve? o.key = some place →
      ∃ places, (place.1, places) ∈ results.entries

namespace Matches.Tallies

variable {m : Matches} (h : m.Tallies files offered)

include h

theorem results_filled (language : String) :
    Filled files offered language (m.results language) where
  filled := by
    rintro ⟨filename, places⟩ hp
    have found := Dict.get?_eq_some_iff.mpr hp
    obtain ⟨o, -, -, position, points⟩ := (h.reached language filename).mp (by simp [found])
    obtain ⟨f, hf, rfl, -⟩ := KeyIndex.exists_file_of_resolve? points
    exact ⟨f, hf, congrArg _ (h.filled language f hf places found)⟩
  reached o ho into place points := by
    obtain ⟨places, found⟩ := Option.ne_none_iff_exists'.mp
      ((h.reached language place.1).mpr ⟨o, ho, into, place.2, points⟩)
    exact ⟨places, Dict.get?_eq_some_iff.mp found⟩

/-- A language has results if the index knows one of its keys. -/
theorem results_isEmpty_iff (language : String) :
    (m.results language).isEmpty = true ↔
      ∀ o ∈ offered, o.language = language → (KeyIndex.ofFiles files).resolve? o.key = none := by
  rw [Dict.isEmpty, List.isEmpty_iff, List.eq_nil_iff_forall_not_mem]
  constructor
  · intro none o ho into
    by_contra known
    obtain ⟨place, points⟩ := Option.ne_none_iff_exists'.mp known
    obtain ⟨places, mem⟩ := (h.results_filled language).reached o ho into place points
    exact none _ mem
  · rintro unknown ⟨filename, places⟩ mem
    have found := Dict.get?_eq_some_iff.mpr mem
    obtain ⟨o, ho, into, position, points⟩ := (h.reached language filename).mp (by simp [found])
    cases (unknown o ho into).symm.trans points

end Matches.Tallies

/-! ### What is bound -/

namespace Archive

variable {a b : Archive} {versionId : RowId} {results : AlignedResults}

/-- The key at a place of a file means the entry that stands there. -/
theorem Holds.exists_standsAt (ha : a.Consistent) (holds : a.Holds versionId files)
    (aligned : f.keys.length = f.texts.length) (hf : f ∈ files) {position : Nat} {info : KeyInfo}
    (here : f.keys[position]? = some info) :
    ∃ e ∈ a.entriesOf versionId, e.StandsAt files (f.filename, position) ∧
      e.key = Key.normalize info.keyPart ∧
        a.resolve? versionId f.filename info.keyPart = some ⟨e.id, .exact⟩ := by
  obtain ⟨text, hp⟩ := SourceFile.exists_mem_pairs aligned (List.mem_of_getElem? here)
  obtain ⟨e, he, version, file, key, -, meaning⟩ := holds.meaning ha hf hp
  exact ⟨e, mem_entriesOf_iff.mpr ⟨he, version⟩, ⟨f, hf, rfl, info, here, file, key⟩, key, meaning⟩

section Filled

variable (ha : a.Consistent) (holds : a.Holds versionId files) (distinct : DistinctFiles files)
  (aligned : ∀ f ∈ files, f.keys.length = f.texts.length)

include ha holds distinct aligned

/-- The rows that are bound for a file, entry by entry. -/
theorem mem_rows_bindFile_filled_iff (hf : f ∈ files) {row : EntryRendering} :
    row ∈ (a.bindFile versionId files f.filename
        (Matches.filledPlaces files offered language f)).rows ↔
      ∃ e ∈ a.entriesOf versionId, e.id = row.1 ∧ ∃ position,
        e.StandsAt files (f.filename, position) ∧
          lastOffered? (KeyIndex.ofFiles files) offered language (f.filename, position) =
            some row.2 := by
  rw [bindFile_of_mem distinct.names hf, mem_rows_bindKeys_iff]
  constructor
  · rintro ⟨⟨info, rendering⟩, hp, rfl, r, meaning, id⟩
    obtain ⟨position, hposition⟩ := List.mem_iff_getElem?.mp hp
    obtain ⟨here, placed⟩ := List.getElem?_zip_eq_some.mp hposition
    obtain ⟨e, he, stands, -, meaning'⟩ := holds.exists_standsAt ha (aligned f hf) hf here
    rw [meaning] at meaning'
    refine ⟨e, he, by rw [← id, Option.some.inj meaning'], position, stands, ?_⟩
    have within := (List.getElem?_eq_some_iff.mp here).1
    rw [Matches.getElem?_filledPlaces, if_pos within] at placed
    exact Option.some.inj placed
  · rintro ⟨e, he, id, position, ⟨g, hg, name, info, here, file, key⟩, placed⟩
    obtain rfl : g = f := List.inj_on_of_nodup_map distinct.names hg hf name
    obtain ⟨he, version⟩ := mem_entriesOf_iff.mp he
    have within := (List.getElem?_eq_some_iff.mp here).1
    refine ⟨(info, some row.2), List.mem_iff_getElem?.mpr ⟨position, ?_⟩, rfl, _,
      resolve?_of_mem ha he version file key, id⟩
    refine List.getElem?_zip_eq_some.mpr ⟨here, ?_⟩
    rw [Matches.getElem?_filledPlaces, if_pos within, placed]

/-- In the rows of a file every entry is listed once, for the keys of a file differ. -/
theorem nodup_rows_bindFile_filled (hf : f ∈ files) :
    ((a.bindFile versionId files f.filename
      (Matches.filledPlaces files offered language f)).rows.map (·.1)).Nodup := by
  have length : f.keys.length = (Matches.filledPlaces files offered language f).length :=
    Matches.length_filledPlaces.symm
  have keys := distinct.nodup_keys hf (aligned f hf)
  rw [← List.map_fst_zip (Nat.le_of_eq length), List.map_map] at keys
  -- The entry of a row has the key that the row was bound for.
  have of_key : ∀ p ∈ f.keys.zip (Matches.filledPlaces files offered language f), ∀ row,
      (p.2.bind fun text => (a.resolve? versionId f.filename p.1.keyPart).map fun r =>
        (r.entryId, text)) = some row →
      ∃ e ∈ a.entries.rows, e.key = Key.normalize p.1.keyPart ∧ e.id = row.1 := by
    intro p hp row hrow
    obtain ⟨position, here⟩ := List.mem_iff_getElem?.mp (List.of_mem_zip hp).1
    obtain ⟨e, he, -, key, meaning⟩ := holds.exists_standsAt ha (aligned f hf) hf here
    obtain ⟨text, -, bound⟩ := Option.bind_eq_some_iff.mp hrow
    rw [meaning, Option.map_some, Option.some.injEq] at bound
    exact ⟨e, (mem_entriesOf_iff.mp he).1, key, congrArg Prod.fst bound⟩
  rw [bindFile_of_mem distinct.names hf, rows_bindKeys]
  refine List.pairwise_map.mpr (List.pairwise_filterMap.mpr
    ((List.pairwise_map.mp keys).imp_of_mem ?_))
  intro p q hp hq differ row hrow row' hrow' same
  obtain ⟨e, he, key, id⟩ := of_key p hp row hrow
  obtain ⟨e', he', key', id'⟩ := of_key q hq row' hrow'
  obtain rfl : e = e' := ha.entries.unique.eq_of_key_eq he he' (id.trans (same.trans id'.symm))
  exact differ (key.symm.trans key')

variable (fills : Filled files offered language results)

include fills

/-- A row is bound if it gives an entry the last text for its place. -/
theorem mem_rows_bindResults_filled_iff {row : EntryRendering} :
    row ∈ (a.bindResults versionId files results.entries).rows ↔
      ∃ e ∈ a.entriesOf versionId, e.id = row.1 ∧ ∃ place, e.StandsAt files place ∧
        lastOffered? (KeyIndex.ofFiles files) offered language place = some row.2 := by
  rw [mem_rows_bindResults_iff_bindFile]
  constructor
  · rintro ⟨p, hp, hrow⟩
    obtain ⟨f, hf, rfl⟩ := fills.filled p hp
    obtain ⟨e, he, id, position, stands, last⟩ :=
      (mem_rows_bindFile_filled_iff ha holds distinct aligned hf).mp hrow
    exact ⟨e, he, id, _, stands, last⟩
  · rintro ⟨e, he, id, ⟨filename, position⟩, stands, last⟩
    have ⟨f, hf, name, _⟩ := stands
    obtain rfl : f.filename = filename := name
    obtain ⟨earlier, key, later, rfl, points, -⟩ := lastOffered?_eq_some_iff.mp last
    obtain ⟨places, mem⟩ := fills.reached ⟨language, key, row.2⟩ (by simp) rfl _ points
    obtain ⟨g, hg, same⟩ := fills.filled _ mem
    obtain ⟨name, rfl⟩ := Prod.mk.inj same
    obtain rfl : f = g := List.inj_on_of_nodup_map distinct.names hf hg name
    exact ⟨_, mem, (mem_rows_bindFile_filled_iff ha holds distinct aligned hf).mpr
      ⟨e, he, id, position, stands, last⟩⟩

/-- Nothing is left out, since every key of the files means an entry. -/
theorem bindResults_filled_whole :
    (a.bindResults versionId files results.entries).unresolved = [] ∧
      (a.bindResults versionId files results.entries).unknownFiles = [] := by
  have each : ∀ p ∈ results.entries, (a.bindFile versionId files p.1 p.2).Complete
      (a.bindFile versionId files p.1 p.2).rows.length := by
    intro p hp
    obtain ⟨f, hf, rfl⟩ := fills.filled p hp
    rw [bindFile_of_mem distinct.names hf]
    have complete : (a.bindKeys versionId f.filename
        (f.keys.zip (Matches.filledPlaces files offered language f))).Complete _ :=
      complete_bindKeys fun p hp => by
        obtain ⟨position, here⟩ := List.mem_iff_getElem?.mp (List.of_mem_zip hp).1
        obtain ⟨e, -, -, -, meaning⟩ := holds.exists_standsAt ha (aligned f hf) hf here
        exact ⟨_, meaning⟩
    exact ⟨rfl, complete.unresolved, complete.unknownFiles⟩
  have complete := complete_bindResults each
  exact ⟨complete.unresolved, complete.unknownFiles⟩

/-- Every entry is listed once, for it stands in one file. -/
theorem nodup_rows_bindResults_filled :
    ((a.bindResults versionId files results.entries).rows.map (·.1)).Nodup := by
  rw [rows_bindResults]
  refine List.pairwise_map.mpr (List.pairwise_flatMap.mpr ⟨fun p hp => ?_, ?_⟩)
  · obtain ⟨f, hf, rfl⟩ := fills.filled p hp
    exact List.pairwise_map.mp (nodup_rows_bindFile_filled ha holds distinct aligned hf)
  · refine results.ascending.imp_of_mem ?_
    intro p q hp hq before row hrow row' hrow' same
    obtain ⟨f, hf, rfl⟩ := fills.filled p hp
    obtain ⟨g, hg, rfl⟩ := fills.filled q hq
    obtain ⟨e, he, id, position, stands, -⟩ :=
      (mem_rows_bindFile_filled_iff ha holds distinct aligned hf).mp hrow
    obtain ⟨e', he', id', position', stands', -⟩ :=
      (mem_rows_bindFile_filled_iff ha holds distinct aligned hg).mp hrow'
    obtain rfl : e = e' := by
      apply ha.entries.unique.eq_of_key_eq (mem_entriesOf_iff.mp he).1 (mem_entriesOf_iff.mp he').1
      rw [id, id', same]
    have names := congrArg Prod.fst (stands.unique distinct aligned stands')
    exact String.lt_irrefl _ (names ▸ before)

/-- To an entry of the version the text is bound that is offered last for it. -/
theorem boundText?_filled_iff {e : EntryRow} (he : e ∈ a.entriesOf versionId) {text : String} :
    boundText? (a.bindResults versionId files results.entries).rows e.id = some text ↔
      e.IsOfferedLast files offered language text := by
  have nodup := nodup_rows_bindResults_filled ha holds distinct aligned fills
  rw [boundText?_eq_some_iff_of_nodup nodup,
    mem_rows_bindResults_filled_iff ha holds distinct aligned fills,
    ← lastOffered?_standsAt_iff distinct aligned]
  constructor
  · rintro ⟨e', he', id, found⟩
    obtain rfl : e' = e := ha.entries.unique.eq_of_key_eq (mem_entriesOf_iff.mp he').1
      (mem_entriesOf_iff.mp he).1 id
    exact found
  · exact fun found => ⟨e, he, rfl, found⟩

/-- As many rows are bound as there are entries for which a text is offered. -/
theorem exists_hit_filled :
    ∃ hit : List EntryRow, hit.Nodup ∧
      (∀ e, e ∈ hit ↔ e ∈ a.entriesOf versionId ∧ e.IsOffered files offered language) ∧
      (a.bindResults versionId files results.entries).rows.length = hit.length := by
  let rows := (a.bindResults versionId files results.entries).rows
  let hit := (a.entriesOf versionId).filter fun e => (boundText? rows e.id).isSome
  have ids : ((a.entriesOf versionId).map (·.id)).Nodup :=
    ha.entries.unique.sublist (List.filter_sublist.map _)
  have hitIds : (hit.map (·.id)).Nodup := ids.sublist (List.filter_sublist.map _)
  refine ⟨hit, hitIds.of_map, fun e => ?_, ?_⟩
  · rw [List.mem_filter, Option.isSome_iff_exists,
      ← EntryRow.exists_isOfferedLast_iff distinct aligned]
    refine and_congr_right fun he => exists_congr fun text => ?_
    exact boundText?_filled_iff ha holds distinct aligned fills he
  · -- Rows and entries name the same ids, each of them once.
    have nodup := nodup_rows_bindResults_filled ha holds distinct aligned fills
    have same : (rows.map (·.1)).Perm (hit.map (·.id)) := by
      refine (List.perm_ext_iff_of_nodup nodup hitIds).mpr fun id => ?_
      simp only [List.mem_map, hit, List.mem_filter]
      constructor
      · rintro ⟨row, hrow, rfl⟩
        obtain ⟨e, he, version, id⟩ := exists_entry_of_mem_rows hrow
        refine ⟨e, ⟨mem_entriesOf_iff.mpr ⟨he, version⟩, ?_⟩, id⟩
        have bound := (boundText?_eq_some_iff_of_nodup nodup).mpr hrow
        rw [id, bound, Option.isSome_some]
      · rintro ⟨e, ⟨-, bound⟩, rfl⟩
        obtain ⟨text, bound⟩ := Option.isSome_iff_exists.mp bound
        exact ⟨_, mem_of_boundText?_eq_some bound, rfl⟩
    simpa using same.length_eq

end Filled

end Archive

end LocalizationMemory
