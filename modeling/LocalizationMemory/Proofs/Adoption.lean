import LocalizationMemory.Proofs.Offers
import LocalizationMemory.Proofs.ReadBack
import LocalizationMemory.Proofs.WholeBatch

/-!
# Adopted renderings

Rendering files are adopted for source files that are new: the mod is found or made, the
version is stored, and what is placed is archived, language by language. An entry of the
version has no rendering before, and a language that is archived leaves all others as they
are. So in the end an entry has the text that was offered for it last, in every language and
in no other case, and every text is counted as placed or its key is listed.

## Main definitions

* `Archive.Adopts` — what a language offers has become of the entries of a version
* `Archive.AdoptsEach` — the same for some languages, which leave all others
* `Archive.Adopted` — what is stored and reported in the end

## Main results

* `Action.exists_ends_archiveAligned_filled` — one language
* `Action.exists_ends_archiveLanguages` — the languages one after the other
* `Action.ends_adopt_iff` — how adopting ends
* `Archive.Reached.adopts_renderings` — rendering files adopted for files that are new
-/

namespace LocalizationMemory

variable {files : List SourceFile} {offered : List OfferedText} {language : String}

namespace Archive

variable {a b : Archive} {versionId : RowId}

/-! ### One language -/

/-- An entry is rendered in a language as a text. -/
def RendersAs (a : Archive) (e : EntryRow) (language text : String) : Prop :=
  ∃ t ∈ a.renderings.rows, t.entryId = e.id ∧ t.language = language ∧ t.text = text

/-- An entry that had no rendering in the language of a batch has the text that the batch gives it
last. -/
theorem rendersAs_putRenderings_iff {now : Millis} {rows : List EntryRendering}
    (hb : putRenderings language now rows a = .ok b) {e : EntryRow}
    (bare : ∀ t ∈ a.renderings.rows, t.language = language → t.entryId ≠ e.id) {text : String} :
    b.RendersAs e language text ↔ boundText? rows e.id = some text := by
  constructor
  · rintro ⟨t, ht, entry, into, rfl⟩
    obtain ⟨before, -⟩ | stored := mem_putRenderings_cases hb ht
    · exact absurd entry (bare t before into)
    · rw [← entry]
      exact stored.text
  · intro bound
    obtain ⟨t, ht, stored, entry, same⟩ := exists_storedBy hb bound
    exact ⟨t, ht, entry, stored.into, same⟩

/-- What a language offers has become of the entries of a version: nothing is left out, the entries
for which a text is offered are counted, and it is the text offered last that they have. -/
structure Adopts (b : Archive) (versionId : RowId) (files : List SourceFile)
    (offered : List OfferedText) (language : String) (report : ArchiveReport) : Prop where
  report : ∃ hit : List EntryRow, hit.Nodup ∧
    (∀ e, e ∈ hit ↔ e ∈ b.entriesOf versionId ∧ e.IsOffered files offered language) ∧
      report = ⟨hit.length, [], []⟩
  texts : ∀ e ∈ b.entriesOf versionId, ∀ text,
    b.RendersAs e language text ↔ e.IsOfferedLast files offered language text

/-- A language is adopted alike in an archive with the same entries of the version and the same
renderings of the language. -/
theorem Adopts.of_same {c : Archive} {report : ArchiveReport}
    (adopts : c.Adopts versionId files offered language report)
    (entries : b.entriesOf versionId = c.entriesOf versionId)
    (same : ∀ t, t.language = language → (t ∈ b.renderings.rows ↔ t ∈ c.renderings.rows)) :
    b.Adopts versionId files offered language report where
  report := entries ▸ adopts.report
  texts e he text := by
    rw [← adopts.texts e (entries ▸ he)]
    refine exists_congr fun t => ?_
    constructor
    · rintro ⟨ht, entry, into, text⟩
      exact ⟨(same t into).mp ht, entry, into, text⟩
    · rintro ⟨ht, entry, into, text⟩
      exact ⟨(same t into).mpr ht, entry, into, text⟩

/-! ### The languages one after the other -/

/-- Of languages with their results those that have any are adopted, and others are left as they
are. -/
structure AdoptsEach (a : Archive) (versionId : RowId) (files : List SourceFile)
    (offered : List OfferedText) (l : List (String × AlignedResults))
    (done archive : Dict ArchiveReport) (b : Archive) : Prop where
  adopted : ∀ p ∈ l, p.2.isEmpty = false → ∃ report, archive.get? p.1 = some report ∧
    b.Adopts versionId files offered p.1 report
  kept : ∀ language, (∀ p ∈ l, p.1 = language → p.2.isEmpty = true) →
    archive.get? language = done.get? language ∧
      ∀ t, t.language = language → (t ∈ b.renderings.rows ↔ t ∈ a.renderings.rows)
  frame : b = { a with renderings := b.renderings }

namespace AdoptsEach

variable {c : Archive} {l : List (String × AlignedResults)} {done archive : Dict ArchiveReport}

/-- Only renderings change. -/
theorem entriesOf (each : a.AdoptsEach versionId files offered l done archive b) :
    b.entriesOf versionId = a.entriesOf versionId := by
  rw [each.frame]
  rfl

/-- Where no language has results nothing is done. -/
theorem of_empty (empty : ∀ p ∈ l, p.2.isEmpty = true) :
    a.AdoptsEach versionId files offered l done done a where
  adopted p hp filled := by
    rw [empty p hp] at filled
    cases filled
  kept _ _ := ⟨rfl, fun _ _ => .rfl⟩
  frame := rfl

/-- A language without results is passed over. -/
theorem skip (each : a.AdoptsEach versionId files offered l done archive b)
    {p : String × AlignedResults} (empty : p.2.isEmpty = true) :
    a.AdoptsEach versionId files offered (p :: l) done archive b where
  adopted := by
    refine List.forall_mem_cons.mpr ⟨fun filled => ?_, each.adopted⟩
    rw [empty] at filled
    cases filled
  kept language absent := each.kept language (List.forall_mem_cons.mp absent).2
  frame := each.frame

/-- A language is adopted before the others, which leave it as it is. -/
theorem cons {p : String × AlignedResults} (apart : p.1 ∉ l.map (·.1)) {report : ArchiveReport}
    (frame : c = { a with renderings := c.renderings })
    (adopts : c.Adopts versionId files offered p.1 report)
    (others : ∀ t, t.language ≠ p.1 → (t ∈ c.renderings.rows ↔ t ∈ a.renderings.rows))
    (filled : p.2.isEmpty = false)
    (each : c.AdoptsEach versionId files offered l (done.insert p.1 report) archive b) :
    a.AdoptsEach versionId files offered (p :: l) done archive b where
  adopted := by
    obtain ⟨reported, same⟩ := each.kept p.1 fun q hq again =>
      absurd (List.mem_map.mpr ⟨q, hq, again⟩) apart
    rw [Dict.get?_insert, if_pos rfl] at reported
    exact List.forall_mem_cons.mpr
      ⟨fun _ => ⟨report, reported, adopts.of_same each.entriesOf same⟩, each.adopted⟩
  kept language absent := by
    obtain ⟨first, absent⟩ := List.forall_mem_cons.mp absent
    have other : p.1 ≠ language := by
      intro own
      rw [first own] at filled
      cases filled
    obtain ⟨reported, same⟩ := each.kept language absent
    rw [Dict.get?_insert, if_neg other] at reported
    refine ⟨reported, fun t into => (same t into).trans (others t ?_)⟩
    rw [into]
    exact other.symm
  frame := by
    rw [each.frame, frame]

end AdoptsEach

end Archive

section Languages

variable {access : Access} {a : Archive} {versionId : RowId} (distinct : DistinctFiles files)
  (aligned : ∀ f ∈ files, f.keys.length = f.texts.length) (free : access.CanWrite)

include distinct aligned free

/-- If the entries of a version have no rendering in a language, what is placed for it is adopted,
and other languages are left as they are. -/
theorem Action.exists_ends_archiveAligned_filled (ha : a.Consistent) (current : a.layout = .current)
    (rules : a.rules = []) (holds : a.Holds versionId files)
    {results : AlignedResults} (fills : Filled files offered language results)
    (bare : ∀ e ∈ a.entriesOf versionId, ∀ t ∈ a.renderings.rows, t.language = language →
      t.entryId ≠ e.id) :
    ∃ report b, (archiveAligned versionId results files language).Ends access a report b ∧
      b.Consistent ∧ b = { a with renderings := b.renderings } ∧
      b.Adopts versionId files offered language report ∧
      ∀ t, t.language ≠ language → (t ∈ b.renderings.rows ↔ t ∈ a.renderings.rows) := by
  have paths := Archive.hasFilePaths_of_current current
  obtain ⟨report, b, ends⟩ :=
    exists_ends_archiveAligned versionId language paths rules free.1 free.2 files results
  obtain ⟨put, unresolved, unknown⟩ := (ends_archiveAligned_iff paths).mp ends
  obtain ⟨hb, archived, -⟩ := ends_putRenderings_iff.mp put
  have stores := Archive.stores_of_putRenderings hb (ha.putRenderings hb).languages
  have entries : b.entriesOf versionId = a.entriesOf versionId := by
    rw [stores.frame]
    rfl
  refine ⟨report, b, ends, ha.putRenderings hb, stores.frame, ⟨?_, fun e he text => ?_⟩,
    fun t other => stores.others t fun into => absurd into other⟩
  · obtain ⟨hit, nodup, mem, count⟩ := Archive.exists_hit_filled ha holds distinct aligned fills
    obtain ⟨whole, known⟩ := Archive.bindResults_filled_whole ha holds distinct aligned fills
    rw [entries]
    refine ⟨hit, nodup, mem, ?_⟩
    rw [ArchiveReport.mk.injEq]
    exact ⟨archived.trans count, unresolved.trans whole, unknown.trans known⟩
  · rw [entries] at he
    rw [Archive.rendersAs_putRenderings_iff hb (bare e he)]
    exact Archive.boundText?_filled_iff ha holds distinct aligned fills he

/-- What is placed for languages is adopted, one after the other, if the entries of the version
have no rendering in them. -/
theorem Action.exists_ends_archiveLanguages {l : List (String × AlignedResults)}
    (apart : (l.map (·.1)).Nodup) (fills : ∀ p ∈ l, Filled files offered p.1 p.2) {a : Archive}
    (ha : a.Consistent) (current : a.layout = .current) (rules : a.rules = [])
    (holds : a.Holds versionId files)
    (bare : ∀ e ∈ a.entriesOf versionId, ∀ t ∈ a.renderings.rows, t.language ∈ l.map (·.1) →
      t.entryId ≠ e.id) (done : Dict ArchiveReport) :
    ∃ archive b, (archiveLanguages versionId files l done).Ends access a archive b ∧
      a.AdoptsEach versionId files offered l done archive b := by
  -- By induction on the languages: those to come have no rendering of the entries in any step.
  induction l generalizing a done with
  | nil => exact ⟨done, a, ends_pure_iff.mpr ⟨rfl, rfl⟩, .of_empty (by simp)⟩
  | cons p r ih =>
    obtain ⟨language, results⟩ := p
    obtain ⟨new, apart⟩ := List.nodup_cons.mp apart
    obtain ⟨first, fills⟩ := List.forall_mem_cons.mp fills
    cases empty : results.isEmpty with
    | true =>
      have bare' : ∀ e ∈ a.entriesOf versionId, ∀ t ∈ a.renderings.rows,
          t.language ∈ r.map (·.1) → t.entryId ≠ e.id :=
        fun e he t ht into => bare e he t ht (List.mem_cons_of_mem _ into)
      obtain ⟨archive, b, ends, each⟩ := ih apart fills ha current rules holds bare' done
      refine ⟨archive, b, ?_, each.skip empty⟩
      rw [archiveLanguages, if_pos empty]
      exact ends
    | false =>
      obtain ⟨report, c, archived, hc, frame, adopts, others⟩ :=
        exists_ends_archiveAligned_filled distinct aligned free ha current rules holds first
          fun e he t ht into => bare e he t ht (into ▸ List.mem_cons_self)
      have entries : c.entries = a.entries := by rw [frame]
      -- What was archived is in no language that is still to come.
      have bare' : ∀ e ∈ c.entriesOf versionId, ∀ t ∈ c.renderings.rows,
          t.language ∈ r.map (·.1) → t.entryId ≠ e.id := by
        intro e he t ht into
        rw [Archive.entriesOf, entries] at he
        have other : t.language ≠ language := by
          intro own
          exact new (own ▸ into)
        exact bare e he t ((others t other).mp ht) (List.mem_cons_of_mem _ into)
      have current' : c.layout = .current := by
        rw [frame]
        exact current
      have rules' : c.rules = [] := by
        rw [frame]
        exact rules
      have holds' : c.Holds versionId files := by
        rw [Archive.Holds, entries]
        exact holds
      obtain ⟨archive, b, ends, each⟩ :=
        ih apart fills hc current' rules' holds' bare' (done.insert language report)
      refine ⟨archive, b, ?_, .cons new frame adopts others empty each⟩
      rw [archiveLanguages, if_neg (by simp [empty])]
      exact ends_bind_iff.mpr ⟨report, c, archived, ends⟩

end Languages

/-! ### Adopting -/

/-- The mod is found or made, the version is stored, and what is placed is archived, unless nothing
is. -/
theorem Action.ends_adopt_iff {access : Access} {a b : Archive} {modName : String}
    {remoteId : Option String} {renderings : List RenderingFile} {report : AdoptionReport} :
    (adopt modName remoteId files renderings).Ends access a report b ↔
      ∃ modId c, (ensureNamedMod modName remoteId).Ends access a modId c ∧
      ∃ s d, (snapshotChecked modId files).Ends access c s d ∧
        let m := Matches.ofFiles (KeyIndex.ofFiles files) files renderings
        ∃ archive, report = ⟨s.versionId, m.matched, m.unmatched, archive⟩ ∧
          (m.matched.values.sum = 0 ∧ archive = ∅ ∧ b = d ∨
            m.matched.values.sum ≠ 0 ∧
              (archiveLanguages s.versionId files m.byLanguage.entries ∅).Ends access d
                archive b) := by
  simp only [adopt, ends_bind_iff]
  refine exists_congr fun modId => exists_congr fun c => and_congr_right fun _ =>
    exists_congr fun s => exists_congr fun d => and_congr_right fun _ => ?_
  rw [AdoptionReport.matchCount, ← List.sum_eq_foldr]
  split
  · next nothing => simp [nothing]
  · next placed => simp [placed, and_comm]

namespace Matches.Tallies

variable {m : Matches} (h : m.Tallies files offered)

include h

/-- The results that are archived for a language hold the last texts. -/
theorem byLanguage_filled {p : String × AlignedResults} (hp : p ∈ m.byLanguage.entries) :
    Filled files offered p.1 p.2 :=
  results_of_mem hp ▸ h.results_filled p.1

/-- A language has results if the index knows one of its keys, and none otherwise. -/
theorem byLanguage_isEmpty_iff {p : String × AlignedResults} (hp : p ∈ m.byLanguage.entries) :
    p.2.isEmpty = true ↔
      ∀ o ∈ offered, o.language = p.1 → (KeyIndex.ofFiles files).resolve? o.key = none := by
  rw [← results_of_mem hp, h.results_isEmpty_iff]

/-- A language of which the index knows a key is archived. -/
theorem exists_byLanguage {o : OfferedText} (ho : o ∈ offered)
    (known : (KeyIndex.ofFiles files).resolve? o.key ≠ none) :
    ∃ results, (o.language, results) ∈ m.byLanguage.entries := by
  have filled : (m.results o.language).isEmpty ≠ true :=
    fun empty => known ((h.results_isEmpty_iff o.language).mp empty o ho rfl)
  cases found : m.byLanguage.get? o.language with
  | some results => exact ⟨results, Dict.get?_eq_some_iff.mp found⟩
  | none =>
    rw [results, found] at filled
    exact absurd rfl filled

end Matches.Tallies

namespace Archive

namespace AdoptsEach

variable {a b : Archive} {versionId : RowId} {placed : Matches} {done archive : Dict ArchiveReport}
  (tallies : placed.Tallies files offered)
  (each : a.AdoptsEach versionId files offered placed.byLanguage.entries done archive b)

include tallies each

/-- A language of which the index knows no key is left as it is. -/
theorem kept_of_unknown (unknown : ∀ o ∈ offered, o.language = language →
    (KeyIndex.ofFiles files).resolve? o.key = none) :
    archive.get? language = done.get? language ∧
      ∀ t, t.language = language → (t ∈ b.renderings.rows ↔ t ∈ a.renderings.rows) :=
  each.kept language fun _ hp own => (tallies.byLanguage_isEmpty_iff hp).mpr (own ▸ unknown)

/-- A language of which the index knows a key is adopted. -/
theorem adopted_of_known {o : OfferedText} (ho : o ∈ offered)
    (known : (KeyIndex.ofFiles files).resolve? o.key ≠ none) :
    ∃ report, archive.get? o.language = some report ∧
      b.Adopts versionId files offered o.language report := by
  obtain ⟨results, hp⟩ := tallies.exists_byLanguage ho known
  refine each.adopted _ hp (Bool.eq_false_iff.mpr fun empty => ?_)
  exact known ((tallies.byLanguage_isEmpty_iff hp).mp empty o ho rfl)

/-- If no entry of the version had a rendering, each has the text that is offered last for it, in
any language. -/
theorem rendersAs_iff
    (bare : ∀ e ∈ a.entriesOf versionId, ∀ t ∈ a.renderings.rows, t.entryId ≠ e.id) {e : EntryRow}
    (he : e ∈ b.entriesOf versionId) (text : String) :
    b.RendersAs e language text ↔ e.IsOfferedLast files offered language text := by
  by_cases unknown : ∀ o ∈ offered, o.language = language →
      (KeyIndex.ofFiles files).resolve? o.key = none
  · -- No key of the language is known, so it offers nothing and has stored nothing.
    rw [each.entriesOf] at he
    refine iff_of_false ?_ ?_
    · rintro ⟨t, ht, entry, into, -⟩
      exact bare e he t (((each.kept_of_unknown tallies unknown).2 t into).mp ht) entry
    · rintro ⟨earlier, key, later, rfl, ⟨place, points, -⟩, -⟩
      cases (unknown ⟨language, key, text⟩ (by simp) rfl).symm.trans points
  · push Not at unknown
    obtain ⟨o, ho, rfl, known⟩ := unknown
    obtain ⟨report, -, adopts⟩ := each.adopted_of_known tallies ho known
    exact adopts.texts e he text

end AdoptsEach

/-- What is stored and reported in the end where rendering files are adopted for files that are
new. -/
structure Adopted (b : Archive) (modName : String) (files : List SourceFile)
    (offered : List OfferedText) (now : Millis) (report : AdoptionReport) : Prop where
  version : ∃ m, b.mod? modName = some m ∧ b.versionByHash? (snapshotHash files) =
    some ⟨report.versionId, m.id, snapshotHash files, now⟩
  contents : (b.entriesOf report.versionId).map (·.content) = (sourceLines files).map (·.content)
  /-- Keys that the index does not know are listed in the order in which they came. -/
  unmatched : report.unmatched =
    (offered.filter fun o => ((KeyIndex.ofFiles files).resolve? o.key).isNone).map (·.key)
  /-- All other texts are counted. -/
  counted : report.matchCount + report.unmatched.length = offered.length
  /-- A language of which the index knows a key has nothing left out, and counts the entries for
  which a text is offered. -/
  reported : ∀ o ∈ offered, (KeyIndex.ofFiles files).resolve? o.key ≠ none →
    ∃ hit : List EntryRow, hit.Nodup ∧ (∀ e, e ∈ hit ↔
        e ∈ b.entriesOf report.versionId ∧ e.IsOffered files offered o.language) ∧
      report.archive.get? o.language = some ⟨hit.length, [], []⟩
  /-- Any other language is not reported. -/
  unreported : ∀ language, (∀ o ∈ offered, o.language = language →
    (KeyIndex.ofFiles files).resolve? o.key = none) → report.archive.get? language = none
  /-- An entry of the version has a text in a language if one is offered for it. -/
  rendered : ∀ language, ∀ e ∈ b.entriesOf report.versionId,
    (∃ text, b.RendersAs e language text) ↔ e.IsOffered files offered language
  /-- And it is the one that is offered last. -/
  texts : ∀ language, ∀ e ∈ b.entriesOf report.versionId, ∀ text,
    b.RendersAs e language text ↔ e.IsOfferedLast files offered language text

/-- If the languages of texts that were placed are adopted in an archive that has a new version of
the files, the texts are. -/
theorem adopted_of_adoptsEach {a d b : Archive} {m : ModRow} {versionId : RowId} {now : Millis}
    {modName : String} {placed : Matches} {archive : Dict ArchiveReport} (ha : a.Consistent)
    (distinct : DistinctFiles files) (aligned : ∀ f ∈ files, f.keys.length = f.texts.length)
    (added : a.AddedVersion m.id files now versionId d) (found : a.mod? modName = some m)
    (new : a.versionByHash? (snapshotHash files) = none) (tallies : placed.Tallies files offered)
    (each : d.AdoptsEach versionId files offered placed.byLanguage.entries ∅ archive b) :
    b.Adopted modName files offered now
      ⟨versionId, placed.matched, placed.unmatched, archive⟩ := by
  have texts : ∀ language, ∀ e ∈ b.entriesOf versionId, ∀ text,
      b.RendersAs e language text ↔ e.IsOfferedLast files offered language text :=
    fun language e he text => each.rendersAs_iff tallies (added.bare ha) he text
  refine ⟨?_, ?_, tallies.unmatched, tallies.counted, ?_, ?_, ?_, texts⟩
  · -- The mod was touched, and is found under its id as before.
    have ids := added.map_id_mod? modName
    rw [found, Option.map_some] at ids
    obtain ⟨m', found', id⟩ := Option.map_eq_some_iff.mp ids
    have version := added.versionByHash? new
    rw [each.frame]
    exact ⟨m', found', id ▸ version⟩
  · rw [each.entriesOf]
    exact added.map_content_entriesOf ha
  · intro o ho known
    obtain ⟨report, reported, adopts⟩ := each.adopted_of_known tallies ho known
    obtain ⟨hit, nodup, mem, rfl⟩ := adopts.report
    exact ⟨hit, nodup, mem, reported⟩
  · intro language unknown
    exact (each.kept_of_unknown tallies unknown).1
  · intro language e he
    rw [← EntryRow.exists_isOfferedLast_iff distinct aligned]
    exact exists_congr fun text => texts language e he text

/-- Rendering files are adopted for files that are new, if the keys of a file differ and each has a
text, the mod has a name, no rule refuses inserts and the right to write can be had. Every text is
counted as placed or its key is listed; in a language of which the index of the files knows a key
nothing is left out, and as many texts are archived as there are entries for which one is offered;
other languages have no report. The new version holds the lines of the files, and an entry of it
has a text in a language exactly if the text is the last that is offered for it in the language. -/
theorem Reached.adopts_renderings {tick : Millis → Millis → Prop} {now : Millis} {a : Archive}
    (reached : a.Reached tick now) (tables : a.layout.hasTables = true) (rules : a.rules = [])
    (modName : String) (named : Text.allBlank modName = false) (remoteId : Option String)
    (aligned : ∀ f ∈ files, f.keys.length = f.texts.length) (distinct : DistinctFiles files)
    (new : a.versionByHash? (snapshotHash files) = none) (renderings : List RenderingFile)
    {access : Access} (free : access.CanWrite) :
    ∃ report b, (Action.adopt modName remoteId files renderings).Ends access a report b ∧
      b.Adopted modName files (offeredTexts renderings) access.now report := by
  have ha := reached.isConsistent
  have current := ha.layout_eq_current tables
  -- The mod is there after the first step, and the hash of the files is still new.
  obtain ⟨modId, c, first⟩ :=
    Action.exists_ends_ensureNamedMod rules tables free named remoteId
  obtain ⟨⟨m, found, rfl⟩, frame⟩ := Action.ensureNamedMod_frame first
  have hc := ha.ensureNamedMod first
  have currentc : c.layout = .current := by
    rw [frame]
    exact current
  have rulesc : c.rules = [] := by
    rw [frame]
    exact rules
  have newc : c.versionByHash? (snapshotHash files) = none := by
    rw [frame]
    exact new
  obtain ⟨s, d, second, stored⟩ := Action.exists_ends_snapshotChecked rulesc
    (hasFilePaths_of_current currentc) free ⟨m, List.mem_of_find?_eq_some found, rfl⟩ newc
  have added := (addedVersion_of_distinct hc distinct stored).1
  let placed := Matches.ofFiles (KeyIndex.ofFiles files) files renderings
  have tallies : placed.Tallies files (offeredTexts renderings) :=
    Matches.tallies_ofFiles distinct.names renderings
  have adopted {archive : Dict ArchiveReport} {b : Archive} (each : d.AdoptsEach s.versionId files
      (offeredTexts renderings) placed.byLanguage.entries ∅ archive b) :=
    adopted_of_adoptsEach hc distinct aligned added found newc tallies each
  -- Where nothing is placed the languages are not even looked at, but all are without results.
  by_cases nothing : placed.matched.values.sum = 0
  · refine ⟨⟨s.versionId, placed.matched, placed.unmatched, ∅⟩, d, ?_, adopted (.of_empty ?_)⟩
    · exact Action.ends_adopt_iff.mpr
        ⟨_, c, first, s, d, second, ∅, rfl, .inl ⟨nothing, rfl, rfl⟩⟩
    · intro p hp
      have unknown := tallies.resolve?_eq_none_of_sum nothing
      exact (tallies.byLanguage_isEmpty_iff hp).mpr fun o ho _ => unknown o ho
  · have apart : (placed.byLanguage.entries.map (·.1)).Nodup :=
      List.pairwise_map.mpr (placed.byLanguage.ascending.imp String.ne_of_lt)
    obtain ⟨archive, b, third, each⟩ := Action.exists_ends_archiveLanguages distinct aligned free
      apart (fun p hp => tallies.byLanguage_filled hp) (hc.addVersion stored)
      (added.layout.trans currentc) (added.rules.trans rulesc) (added.holds hc)
      (fun e he t ht _ => added.bare hc e he t ht) ∅
    exact ⟨_, b, Action.ends_adopt_iff.mpr
      ⟨_, c, first, s, d, second, archive, rfl, .inr ⟨nothing, third⟩⟩, adopted each⟩

/-- A language whose texts come in two files, with a key in two spellings and one that is not known:
the entry has the last text, and the unknown key is listed. -/
theorem Reached.adopts_renderings_of_spellings :
    ∃ a : Archive, a.Reached (· ≤ ·) 1 ∧ ∃ report b,
      (Action.adopt "Alpha" none [⟨"a.yml", [⟨"k", none⟩, ⟨"l", none⟩], ["X", "Y"]⟩]
        [⟨"ko", [("k", "P"), ("z", "Q")]⟩, ⟨"de", [("l", "R")]⟩, ⟨"ko", [(" k:0 ", "S")]⟩]).Ends
          { now := 2 } a report b ∧
      report.unmatched = ["z"] ∧
      ∃ e ∈ b.entriesOf report.versionId, e.key = "k" ∧ b.RendersAs e "ko" "S" := by
  let s : Store := { settings := {} }
  let files : List SourceFile := [⟨"a.yml", [⟨"k", none⟩, ⟨"l", none⟩], ["X", "Y"]⟩]
  let renderings : List RenderingFile :=
    [⟨"ko", [("k", "P"), ("z", "Q")]⟩, ⟨"de", [("l", "R")]⟩, ⟨"ko", [(" k:0 ", "S")]⟩]
  obtain ⟨a, found, tables, rules, new⟩ :
      ∃ a ∈ (s.operateAll [.ensureMod "Alpha" none]).archive? 0, a.layout.hasTables = true ∧
        a.rules = [] ∧ a.versionByHash? (snapshotHash files) = none := by
    decide +kernel
  have reached : a.Reached (· ≤ ·) 1 :=
    ⟨_, 0, s.reached_operateAll [.ensureMod "Alpha" none], found⟩
  have free : ({ now := 2 } : Access).CanWrite := ⟨by decide, rfl⟩
  obtain ⟨report, b, ends, adopted⟩ := reached.adopts_renderings tables rules
    "Alpha" (by decide +kernel) none (by decide) (by decide +kernel) new renderings free
  have unmatched : report.unmatched = ["z"] := by
    rw [adopted.unmatched]
    decide +kernel
  have line : (some "a.yml", "k", "X") ∈ (b.entriesOf report.versionId).map (·.content) := by
    rw [adopted.contents]
    decide +kernel
  obtain ⟨e, he, content⟩ := List.mem_map.mp line
  obtain ⟨file, key, -⟩ : e.file = some "a.yml" ∧ e.key = "k" ∧ e.text = "X" := by
    simpa [EntryRow.content] using content
  refine ⟨a, reached, report, b, ends, unmatched, e, he, key, ?_⟩
  refine (adopted.texts "ko" e he "S").mpr
    ⟨[⟨"ko", "k", "P"⟩, ⟨"ko", "z", "Q"⟩, ⟨"de", "l", "R"⟩], " k:0 ", [], rfl, ?_, by simp⟩
  exact ⟨("a.yml", 0), by decide +kernel, _, List.mem_singleton_self _, rfl, ⟨"k", none⟩, rfl, file,
    key.trans (by decide +kernel)⟩

end Archive

end LocalizationMemory
