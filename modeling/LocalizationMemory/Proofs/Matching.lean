import LocalizationMemory.Proofs.Dict
import LocalizationMemory.Proofs.Index

/-!
# The texts that are placed

Rendering files offer texts for keys. A key that the index of the source files does not know
is listed; the text of any other is placed where the index points, in a row of places that is
made when the first text for its file arrives. Whatever the order in which languages, files
and spellings of keys alternate, in the end every place holds the last text that was offered
for it, and what was placed and what is listed make up all that was offered.

## Main definitions

* `OfferedText`, `offeredTexts` — what rendering files offer, one after the other
* `lastOffered?` — the text that is offered last for a place
* `Matches.Tallies` — what was placed and listed of the texts offered so far

## Main results

* `KeyIndex.exists_file_of_resolve?` — the index points at a key of a source file
* `lastOffered?_eq_some_iff` — the last text for a place, among those that were offered
* `Matches.Tallies.addEntry` — one more text
* `Matches.tallies_ofFiles` — all texts
-/

namespace LocalizationMemory

/-- A text that a rendering file offers for a key. -/
structure OfferedText where
  language : String
  key : String
  text : String
  deriving DecidableEq, Repr

/-- The texts that rendering files offer, one after the other. -/
def offeredTexts (renderings : List RenderingFile) : List OfferedText :=
  renderings.flatMap fun t => t.entries.map fun p => ⟨t.language, p.1, p.2⟩

/-- The text that is offered last in a language for a place that the index points at. -/
def lastOffered? (index : KeyIndex) (offered : List OfferedText) (language : String)
    (place : String × Nat) : Option String :=
  (offered.reverse.find? fun o => o.language = language ∧ index.resolve? o.key = some place).map
    (·.text)

section LastOffered

variable {index : KeyIndex} {offered : List OfferedText} {language : String}
  {place : String × Nat}

theorem lastOffered?_append_singleton (o : OfferedText) :
    lastOffered? index (offered ++ [o]) language place =
      if o.language = language ∧ index.resolve? o.key = some place then some o.text
      else lastOffered? index offered language place := by
  rw [lastOffered?, List.reverse_append, List.reverse_singleton, List.singleton_append,
    List.find?_cons]
  by_cases own : o.language = language ∧ index.resolve? o.key = some place
  · simp [own]
  · simp [own, lastOffered?]

theorem lastOffered?_eq_none_iff :
    lastOffered? index offered language place = none ↔
      ∀ o ∈ offered, o.language = language → index.resolve? o.key ≠ some place := by
  simp [lastOffered?]

/-- The last text for a place is one after which no other is offered for it. -/
theorem lastOffered?_eq_some_iff {text : String} :
    lastOffered? index offered language place = some text ↔
      ∃ earlier key later, offered = earlier ++ ⟨language, key, text⟩ :: later ∧
        index.resolve? key = some place ∧
          ∀ o ∈ later, o.language = language → index.resolve? o.key ≠ some place := by
  rw [lastOffered?, Option.map_eq_some_iff]
  constructor
  · rintro ⟨⟨_, key, text⟩, found, rfl⟩
    obtain ⟨own, after, before, split, none⟩ := List.find?_eq_some_iff_append.mp found
    obtain ⟨rfl, points⟩ : _ = language ∧ index.resolve? key = some place := by simpa using own
    refine ⟨before.reverse, key, after.reverse, ?_, points, fun o ho into => ?_⟩
    · simpa using congrArg List.reverse split
    · simpa [into] using none o (List.mem_reverse.mp ho)
  · rintro ⟨earlier, key, later, rfl, found, none⟩
    refine ⟨⟨language, key, text⟩, List.find?_eq_some_iff_append.mpr ⟨by simp [found],
      later.reverse, earlier.reverse, by simp, fun o ho => ?_⟩, rfl⟩
    simpa [imp_iff_not_or] using none o (List.mem_reverse.mp ho)

end LastOffered

/-! ### Where the index points -/

variable {files : List SourceFile} {f : SourceFile} {offered : List OfferedText}

/-- The index points at a key of one of the source files. -/
theorem KeyIndex.exists_file_of_resolve? {rawKey : String} {place : String × Nat}
    (found : (KeyIndex.ofFiles files).resolve? rawKey = some place) :
    ∃ f ∈ files, f.filename = place.1 ∧ place.2 < f.keys.length := by
  obtain ⟨entry, first, rfl⟩ := Option.map_eq_some_iff.mp found
  obtain ⟨s, -, hs⟩ := List.exists_of_findSome?_eq_some first
  obtain ⟨lookup, -, hl⟩ := Option.bind_eq_some_iff.mp hs
  have mem := List.mem_of_find?_eq_some hl
  rw [KeyIndex.entries_ofFiles] at mem
  obtain ⟨f, hf, hentry⟩ := List.mem_flatMap.mp mem
  obtain ⟨⟨info, position⟩, hk, rfl⟩ := List.mem_map.mp hentry
  exact ⟨f, hf, rfl, (List.getElem?_eq_some_iff.mp (List.mem_zipIdx_iff_getElem?.mp hk)).1⟩

namespace Matches

/-- The texts placed for a language, by file and position. -/
def results (m : Matches) (language : String) : AlignedResults :=
  (m.byLanguage.get? language).getD ∅

theorem results_of_mem {m : Matches} {p : String × AlignedResults}
    (hp : p ∈ m.byLanguage.entries) : m.results p.1 = p.2 := by
  rw [results, Dict.get?_eq_some_iff.mpr hp, Option.getD_some]

/-- The places of a file as they are filled by the texts that are offered last for each. -/
def filledPlaces (files : List SourceFile) (offered : List OfferedText) (language : String)
    (f : SourceFile) : List (Option String) :=
  (List.range f.keys.length).map fun i =>
    lastOffered? (KeyIndex.ofFiles files) offered language (f.filename, i)

@[simp] theorem length_filledPlaces {language : String} :
    (filledPlaces files offered language f).length = f.keys.length := by
  simp [filledPlaces]

/-- A file has as many places as keys, and each holds the text that is offered last for it. -/
theorem getElem?_filledPlaces {language : String} (position : Nat) :
    (filledPlaces files offered language f)[position]? =
      if position < f.keys.length then
        some (lastOffered? (KeyIndex.ofFiles files) offered language (f.filename, position))
      else none := by
  rw [filledPlaces, List.getElem?_map]
  split
  · next within => rw [List.getElem?_range within, Option.map_some]
  · next beyond =>
    rw [List.getElem?_eq_none (by simpa using beyond), Option.map_none]

/-- What has become of the texts that were offered so far. -/
structure Tallies (m : Matches) (files : List SourceFile) (offered : List OfferedText) : Prop where
  /-- The keys that the index does not know are listed in the order in which they came. -/
  unmatched : m.unmatched =
    (offered.filter fun o => ((KeyIndex.ofFiles files).resolve? o.key).isNone).map (·.key)
  /-- All other texts are counted. -/
  counted : m.matched.values.sum + m.unmatched.length = offered.length
  /-- A file has places once a text is offered for it. -/
  reached : ∀ language filename, (m.results language).get? filename ≠ none ↔
    ∃ o ∈ offered, o.language = language ∧
      ∃ position, (KeyIndex.ofFiles files).resolve? o.key = some (filename, position)
  filled : ∀ language, ∀ f ∈ files, ∀ places, (m.results language).get? f.filename = some places →
    places = filledPlaces files offered language f

theorem tallies_empty (files : List SourceFile) : Tallies {} files [] where
  unmatched := rfl
  counted := rfl
  reached := by simp [results]
  filled := by simp [results]

/-! ### What changes with a text -/

/-- The results of a language are replaced, and those of others stay. -/
theorem results_insert (m : Matches) (language other : String) (placed : AlignedResults)
    (matched : Dict Nat) :
    results { m with byLanguage := m.byLanguage.insert language placed, matched } other =
      if language = other then placed else m.results other := by
  rw [results, Dict.get?_insert]
  split
  · rfl
  · rfl

/-- Noting a language leaves what is placed. -/
theorem results_noted (m : Matches) (language other : String) :
    results { m with
      byLanguage := m.byLanguage.insert language ((m.byLanguage.get? language).getD ∅) } other =
      m.results other := by
  rw [results_insert m language other _ m.matched]
  split
  · next same => rw [← same, results]
  · rfl

/-- A text for none of the places of a file leaves them. -/
theorem filledPlaces_append_of_ne {language : String} {o : OfferedText}
    (apart : ∀ i, ¬ (o.language = language ∧
      (KeyIndex.ofFiles files).resolve? o.key = some (f.filename, i))) :
    filledPlaces files (offered ++ [o]) language f = filledPlaces files offered language f := by
  refine List.map_congr_left fun i _ => ?_
  rw [lastOffered?_append_singleton, if_neg (apart i)]

/-- A text fills the place that the index points at, and leaves the others. -/
theorem filledPlaces_append_of_points {o : OfferedText} {position : Nat}
    (points : (KeyIndex.ofFiles files).resolve? o.key = some (f.filename, position)) :
    filledPlaces files (offered ++ [o]) o.language f =
      (filledPlaces files offered o.language f).set position (some o.text) := by
  apply List.ext_getElem?
  intro i
  rw [List.getElem?_set, getElem?_filledPlaces, getElem?_filledPlaces, length_filledPlaces,
    lastOffered?_append_singleton, points]
  by_cases here : position = i
  · simp [here]
  · simp [here]

namespace Tallies

variable {m : Matches} (h : m.Tallies files offered)

include h

/-- The places that a file has when a text arrives for it are filled by the texts of before. -/
theorem places_eq (names : (files.map (·.filename)).Nodup) (language : String) (hf : f ∈ files) :
    ((m.results language).get? f.filename).getD (emptyPlaces files f.filename) =
      filledPlaces files offered language f := by
  cases found : (m.results language).get? f.filename with
  | some places => exact h.filled language f hf places found
  | none =>
    -- Nothing was offered for the file, so its places are still empty.
    have fresh : ∀ i, lastOffered? (KeyIndex.ofFiles files) offered language (f.filename, i) =
        none := by
      intro i
      refine lastOffered?_eq_none_iff.mpr fun o ho into points => ?_
      exact (h.reached language f.filename).mpr ⟨o, ho, into, i, points⟩ found
    rw [Option.getD_none, emptyPlaces, Archive.find?_filename names hf, filledPlaces]
    simp only [fresh, List.map_const', List.length_range]

/-- A key that the index does not know is listed. -/
theorem listed {o : OfferedText} (unknown : (KeyIndex.ofFiles files).resolve? o.key = none) :
    Tallies { m with unmatched := m.unmatched ++ [o.key] } files (offered ++ [o]) where
  unmatched := by
    rw [List.filter_append, List.map_append, ← h.unmatched]
    simp [unknown]
  counted := by
    have counted := h.counted
    rw [List.length_append, List.length_append, List.length_singleton, List.length_singleton]
    dsimp only
    omega
  reached language filename := by
    change (m.results language).get? filename ≠ none ↔ _
    rw [h.reached]
    simp [or_and_right, exists_or, unknown]
  filled language f hf places found := by
    rw [filledPlaces_append_of_ne (by simp [unknown])]
    exact h.filled language f hf places found

/-- Placing a text fills its place, which is made if the file has none, and counts it. -/
theorem place_eq (names : (files.map (·.filename)).Nodup) (language text : String) (hf : f ∈ files)
    {position : Nat} (within : position < f.keys.length) :
    m.place files language f.filename position text = { m with
      byLanguage := m.byLanguage.insert language ((m.results language).insert f.filename
        ((filledPlaces files offered language f).set position (some text)))
      matched := m.matched.insert language ((m.matched.get? language).getD 0 + 1) } := by
  have before := h.places_eq names language hf
  unfold place
  rw [← show m.results language = (m.byLanguage.get? language).getD ∅ from rfl]
  simp only [before, length_filledPlaces, if_pos within]

/-- A text is placed where the index points, and all other places are as before. -/
theorem placed (names : (files.map (·.filename)).Nodup) {o : OfferedText} (hf : f ∈ files)
    {position : Nat} (within : position < f.keys.length)
    (points : (KeyIndex.ofFiles files).resolve? o.key = some (f.filename, position)) :
    (m.place files o.language f.filename position o.text).Tallies files (offered ++ [o]) := by
  rw [h.place_eq names o.language o.text hf within]
  constructor
  case unmatched =>
    rw [List.filter_append, List.map_append, ← h.unmatched]
    simp [points]
  case counted =>
    have counted := h.counted
    have sum := m.matched.sum_values_insert o.language ((m.matched.get? o.language).getD 0 + 1)
    rw [List.length_append, List.length_singleton]
    dsimp only
    omega
  case reached =>
    intro language filename
    have others := h.reached language filename
    rw [results_insert]
    by_cases into : o.language = language
    · rw [if_pos into, Dict.get?_insert, into]
      by_cases same : f.filename = filename
      · rw [if_pos same]
        refine iff_of_true (Option.some_ne_none _) ⟨o, by simp, into, position, ?_⟩
        rw [points, same]
      · rw [if_neg same, others]
        simp [or_and_right, exists_or, points, same]
    · rw [if_neg into, others]
      simp [or_and_right, exists_or, into]
  case filled =>
    intro language g hg places found
    rw [results_insert] at found
    by_cases own : o.language = language ∧ f.filename = g.filename
    · obtain ⟨rfl, same⟩ := own
      obtain rfl : f = g := List.inj_on_of_nodup_map names hf hg same
      rw [if_pos rfl, Dict.get?_insert, if_pos rfl] at found
      rw [filledPlaces_append_of_points points]
      exact (Option.some.inj found).symm
    · -- The places of other files and languages were not touched.
      have unchanged : (m.results language).get? g.filename = some places := by
        split at found
        · next into =>
          rw [into, Dict.get?_insert, if_neg fun same => own ⟨into, same⟩] at found
          exact found
        · exact found
      rw [h.filled language g hg places unchanged, filledPlaces_append_of_ne]
      rintro i ⟨into, pointsHere⟩
      rw [points, Option.some.injEq, Prod.mk.injEq] at pointsHere
      exact own ⟨into, pointsHere.1⟩

/-- One more text is offered. -/
theorem addEntry (names : (files.map (·.filename)).Nodup) (language : String)
    (entry : String × String) :
    (Matches.addEntry (KeyIndex.ofFiles files) files language m entry).Tallies files
      (offered ++ [⟨language, entry.1, entry.2⟩]) := by
  unfold Matches.addEntry
  cases points : (KeyIndex.ofFiles files).resolve? entry.1 with
  | none => exact h.listed (o := ⟨language, entry.1, entry.2⟩) points
  | some place =>
    obtain ⟨f, hf, name, within⟩ := KeyIndex.exists_file_of_resolve? points
    obtain ⟨filename, position⟩ := place
    obtain rfl : f.filename = filename := name
    exact h.placed names (o := ⟨language, entry.1, entry.2⟩) hf within points

/-- The texts of a rendering file are offered one after the other. -/
theorem foldl_addEntry (names : (files.map (·.filename)).Nodup) (language : String)
    (entries : List (String × String)) :
    (entries.foldl (Matches.addEntry (KeyIndex.ofFiles files) files language) m).Tallies files
      (offered ++ entries.map fun p => ⟨language, p.1, p.2⟩) := by
  induction entries generalizing m offered with
  | nil => simpa using h
  | cons entry r ih =>
    have others := ih (h.addEntry names language entry)
    rwa [List.append_assoc] at others

/-- A rendering file notes its language and offers its texts. -/
theorem addFile (names : (files.map (·.filename)).Nodup) (t : RenderingFile) :
    (Matches.addFile (KeyIndex.ofFiles files) files m t).Tallies files
      (offered ++ t.entries.map fun p => ⟨t.language, p.1, p.2⟩) := by
  unfold Matches.addFile
  apply foldl_addEntry (m := { m with
    byLanguage := m.byLanguage.insert t.language ((m.byLanguage.get? t.language).getD ∅) })
  · refine ⟨h.unmatched, h.counted, ?_, ?_⟩
    · simpa only [results_noted] using h.reached
    · simpa only [results_noted] using h.filled
  · exact names

/-- Where nothing is placed, the index knows none of the keys. -/
theorem resolve?_eq_none_of_sum (nothing : m.matched.values.sum = 0) :
    ∀ o ∈ offered, (KeyIndex.ofFiles files).resolve? o.key = none := by
  have counted := h.counted
  rw [nothing, Nat.zero_add, h.unmatched, List.length_map] at counted
  have all := List.filter_eq_self.mp (List.filter_sublist.eq_of_length counted)
  exact fun o ho => Option.isNone_iff_eq_none.mp (all o ho)

end Tallies

/-- All texts of rendering files are placed or listed. -/
theorem tallies_ofFiles (names : (files.map (·.filename)).Nodup)
    (renderings : List RenderingFile) :
    (ofFiles (KeyIndex.ofFiles files) files renderings).Tallies files
      (offeredTexts renderings) := by
  have from' (m : Matches) (offered : List OfferedText) (h : m.Tallies files offered) :
      (renderings.foldl (addFile (KeyIndex.ofFiles files) files) m).Tallies files
        (offered ++ offeredTexts renderings) := by
    induction renderings generalizing m offered with
    | nil => simpa [offeredTexts] using h
    | cons t r ih =>
      have others := ih _ _ (h.addFile names t)
      rwa [List.append_assoc] at others
  exact from' {} [] (tallies_empty files)

end Matches

end LocalizationMemory
