import Mathlib.Data.Prod.Lex
import LocalizationMemory.Proofs.Archive.Binding
import LocalizationMemory.Proofs.Archive.Resolution

/-!
# The order of preference among entries

A key may mean several entries of a version: those spelled like it, in its file or in
none, and those that differ from it by a revision. They are in one order of preference,
by the strategy that finds them, then by their file, then by their id, and the key means
the first of them. Nothing is assumed of the entries: a file may be left out or empty, a
key may stand in several files, and the ids may come in any order.

## Main definitions

* `Key.IsRevision` — a key is a base with a revision
* `EntryRow.IsLegacy`, `EntryRow.IsWithin` — an entry names no file, or none but a given one
* `Archive.Candidate` — an entry that a key may mean, with the strategy that finds it
* `EntryRow.place` — the place of an entry in the order of preference

## Main results

* `Archive.firstMatch?_spec` — a lookup finds the preferred one of the entries it accepts
* `Archive.resolve?_spec` — a key means a candidate that no candidate comes before
* `Archive.resolve?_eq_none_iff` — a key means nothing exactly if it has no candidate
* `Action.resolve_finds_first_candidate` — all of this of resolving a key
-/

namespace LocalizationMemory

/-- A key is a base with a revision: a colon and decimal digits after something. -/
structure Key.IsRevision (key base revision : String) : Prop where
  spelled : key = base ++ ":" ++ revision
  base_ne : base ≠ ""
  revision_ne : revision ≠ ""
  digits : ∀ c ∈ revision.toList, Key.isDigit c = true

theorem Key.splitRevision_eq_some_iff_isRevision {key base revision : String} :
    Key.splitRevision key = some (base, revision) ↔ Key.IsRevision key base revision := by
  rw [Key.splitRevision_eq_some_iff]
  exact ⟨fun ⟨h, hb, hr, hd⟩ => ⟨h, hb, hr, hd⟩, fun ⟨h, hb, hr, hd⟩ => ⟨h, hb, hr, hd⟩⟩

theorem Key.isRevisioned_iff {key : String} :
    Key.isRevisioned key = true ↔ ∃ base revision, Key.IsRevision key base revision := by
  simp [Key.isRevisioned, Option.isSome_iff_exists, Key.splitRevision_eq_some_iff_isRevision]

/-- A key is a base with a revision in one way only. -/
theorem Key.IsRevision.unique {key base base' revision revision' : String}
    (h : Key.IsRevision key base revision) (h' : Key.IsRevision key base' revision') :
    base = base' ∧ revision = revision' := by
  rw [← Key.splitRevision_eq_some_iff_isRevision] at h h'
  exact Prod.mk.inj (Option.some.inj (h.symm.trans h'))

/-! ### Files and places -/

namespace EntryRow

/-- An entry names no file. -/
def IsLegacy (e : EntryRow) : Prop := e.file = some "" ∨ e.file = none

/-- An entry is of a file or names none. -/
def IsWithin (e : EntryRow) (file : String) : Prop := e.file = some file ∨ e.IsLegacy

/-- The rank of an entry's file, seen from a file: that file first, then the empty name,
then no file at all. -/
def fileRank (file : String) (e : EntryRow) : ℕ :=
  match e.file with
  | some name => if name = file then 0 else 1
  | none => 2

/-- The place of an entry in the order of preference: by the strategy that finds it, then
by the rank of its file, then by its id. -/
def place (file : String) (s : Strategy) (e : EntryRow) : ℕ ×ₗ ℕ ×ₗ RowId :=
  toLex (Strategy.order.idxOf s, toLex (e.fileRank file, e.id))

theorem place_inj {file : String} {s t : Strategy} {e f : EntryRow}
    (same : e.place file s = f.place file t) : s = t ∧ e.id = f.id := by
  obtain ⟨strategies, rest⟩ := Prod.mk.inj (toLex_inj.mp same)
  have ids := (Prod.mk.inj (toLex_inj.mp rest)).2
  exact ⟨(List.idxOf_inj (Strategy.mem_order s)).mp strategies, ids⟩

theorem place_le_iff {file : String} {s t : Strategy} {e f : EntryRow} :
    e.place file s ≤ f.place file t ↔
      Strategy.order.idxOf s < Strategy.order.idxOf t ∨
        Strategy.order.idxOf s = Strategy.order.idxOf t ∧
          (e.fileRank file < f.fileRank file ∨
            e.fileRank file = f.fileRank file ∧ e.id ≤ f.id) := by
  rw [place, place, Prod.Lex.toLex_le_toLex]
  exact or_congr_right (and_congr_right fun _ => Prod.Lex.toLex_le_toLex)

end EntryRow

theorem FileScope.accepts_scope_iff {s : Strategy} {file : String} {e : EntryRow} :
    (s.scope file).accepts e.file = true ↔
      match s with
      | .exact => e.file = some file
      | .legacyFilePath => e.IsLegacy
      | .stripRevision | .anyRevision => e.IsWithin file := by
  cases s <;> simp [Strategy.scope, FileScope.accepts, EntryRow.IsLegacy, EntryRow.IsWithin, or_assoc]

/-! ### What a lookup finds -/

namespace Archive

variable {a : Archive} {versionId : RowId} {lookup : Lookup} {e : EntryRow}

theorem preferredTo_iff {scope : FileScope} {e f : EntryRow} :
    preferredTo scope e f = true ↔ toLex (scope.rank e.file, e.id) ≤ toLex (scope.rank f.file, f.id) := by
  rw [preferredTo, decide_eq_true_iff, Prod.Lex.toLex_le_toLex]

theorem pairwise_candidates :
    (a.candidates versionId lookup).Pairwise fun e f => preferredTo lookup.file e f = true := by
  apply pairwise_sortBy
  · intro e f g first second
    rw [preferredTo_iff] at *
    exact first.trans second
  · intro e f
    rw [preferredTo_iff, preferredTo_iff]
    exact le_total _ _

/-- A lookup finds the preferred one of the entries it accepts. -/
theorem firstMatch?_spec (zeroless : Zeroless lookup.key.text)
    (found : a.firstMatch? versionId lookup = some e) :
    e ∈ a.entriesOf versionId ∧ lookup.key.accepts e.key = true ∧
      lookup.file.accepts e.file = true ∧
      ∀ f ∈ a.entriesOf versionId, lookup.key.accepts f.key = true →
        lookup.file.accepts f.file = true → preferredTo lookup.file e f = true := by
  have candidate := List.mem_of_find?_eq_some found
  simp only [candidates, mem_sortBy, List.mem_filter, Bool.and_eq_true] at candidate
  have spelled := List.find?_some found
  refine ⟨candidate.1, spelled, candidate.2.2, ?_⟩
  intro f mem spelled filed
  apply rel_of_find?_of_pairwise pairwise_candidates (fun e => preferredTo_iff.mpr le_rfl) found f
  · simp only [candidates, mem_sortBy, List.mem_filter, Bool.and_eq_true]
    exact ⟨mem, KeyPattern.admits_of_accepts zeroless spelled, filed⟩
  · exact spelled

/-- A lookup finds nothing exactly if it accepts no entry. -/
theorem firstMatch?_eq_none_iff (zeroless : Zeroless lookup.key.text) :
    a.firstMatch? versionId lookup = none ↔
      ∀ f ∈ a.entriesOf versionId, lookup.key.accepts f.key = true →
        lookup.file.accepts f.file = false := by
  simp only [firstMatch?, candidates, List.find?_eq_none, mem_sortBy, List.mem_filter,
    Bool.and_eq_true, and_imp]
  constructor
  · intro none f mem spelled
    by_contra filed
    exact none f mem (KeyPattern.admits_of_accepts zeroless spelled) (by simpa using filed) spelled
  · intro none f mem _ filed spelled
    rw [none f mem spelled] at filed
    cases filed

/-! ### Candidates and their order -/

/-- An entry of a version that a key of a file may mean, with the strategy that finds it. -/
inductive Candidate (a : Archive) (versionId : RowId) (file key : String) :
    Strategy → EntryRow → Prop
  | exact {e : EntryRow} (mem : e ∈ a.entriesOf versionId) (named : e.file = some file)
      (same : e.key = key) : Candidate a versionId file key .exact e
  | legacyFilePath {e : EntryRow} (mem : e ∈ a.entriesOf versionId) (legacy : e.IsLegacy)
      (same : e.key = key) : Candidate a versionId file key .legacyFilePath e
  | stripRevision {e : EntryRow} {revision : String} (mem : e ∈ a.entriesOf versionId)
      (within : e.IsWithin file) (stripped : Key.IsRevision key e.key revision) :
      Candidate a versionId file key .stripRevision e
  | anyRevision {e : EntryRow} {revision : String} (mem : e ∈ a.entriesOf versionId)
      (within : e.IsWithin file) (nonempty : key ≠ "")
      (bare : ∀ base other, ¬ Key.IsRevision key base other)
      (revised : Key.IsRevision e.key key revision) : Candidate a versionId file key .anyRevision e

variable {file key : String} {s : Strategy}

/-- A candidate of a strategy is an entry that the lookup of the strategy accepts. -/
theorem candidate_iff :
    a.Candidate versionId file key s e ↔
      e ∈ a.entriesOf versionId ∧ (s.scope file).accepts e.file = true ∧
        ∃ p, s.pattern? key = some p ∧ p.accepts e.key = true := by
  rw [FileScope.accepts_scope_iff]
  constructor
  · rintro (⟨mem, named, same⟩ | ⟨mem, legacy, same⟩ | ⟨mem, within, stripped⟩ |
      ⟨mem, within, -, bare, revised⟩)
    · exact ⟨mem, named, _, rfl, KeyPattern.accepts_exact_iff.mpr same⟩
    · exact ⟨mem, legacy, _, rfl, KeyPattern.accepts_exact_iff.mpr same⟩
    · refine ⟨mem, within, .exact e.key, ?_, KeyPattern.accepts_exact_iff.mpr rfl⟩
      rw [Strategy.pattern?, Key.splitRevision_eq_some_iff_isRevision.mpr stripped, Option.map_some]
    · have unrevised : Key.isRevisioned key ≠ true := by
        intro h
        obtain ⟨base, other, parts⟩ := Key.isRevisioned_iff.mp h
        exact bare base other parts
      refine ⟨mem, within, .anyRevisionOf key, if_neg unrevised, ?_⟩
      exact KeyPattern.accepts_anyRevisionOf_iff.mpr
        ⟨_, Key.splitRevision_eq_some_iff_isRevision.mpr revised⟩
  · rintro ⟨mem, filed, p, pattern, accepted⟩
    cases s with
    | exact =>
      obtain rfl := Option.some.inj pattern
      exact .exact mem filed (KeyPattern.accepts_exact_iff.mp accepted)
    | legacyFilePath =>
      obtain rfl := Option.some.inj pattern
      exact .legacyFilePath mem filed (KeyPattern.accepts_exact_iff.mp accepted)
    | stripRevision =>
      obtain ⟨⟨base, revision⟩, split, rfl⟩ := Option.map_eq_some_iff.mp pattern
      obtain rfl := KeyPattern.accepts_exact_iff.mp accepted
      exact .stripRevision mem filed (Key.splitRevision_eq_some_iff_isRevision.mp split)
    | anyRevision =>
      rw [Strategy.pattern?] at pattern
      split at pattern
      · cases pattern
      · next unrevised =>
        obtain rfl := Option.some.inj pattern
        obtain ⟨revision, split⟩ := KeyPattern.accepts_anyRevisionOf_iff.mp accepted
        have revised := Key.splitRevision_eq_some_iff_isRevision.mp split
        exact .anyRevision mem filed revised.base_ne
          (fun base other parts => unrevised (Key.isRevisioned_iff.mpr ⟨base, other, parts⟩)) revised

/-- Among the entries that a strategy accepts, files rank as the database ranks them. -/
theorem fileRank_lt_iff {f : EntryRow} (he : (s.scope file).accepts e.file = true)
    (hf : (s.scope file).accepts f.file = true) :
    e.fileRank file < f.fileRank file ↔
      (s.scope file).rank e.file < (s.scope file).rank f.file := by
  rw [FileScope.accepts_scope_iff] at he hf
  cases s with
  | exact => simp_all [EntryRow.fileRank, Strategy.scope, FileScope.rank, FileScope.preferred]
  | legacyFilePath =>
    -- The empty name ranks first here, and before no name at all wherever it ranks.
    by_cases empty : "" = file <;> rcases he with he | he <;> rcases hf with hf | hf <;>
      simp [EntryRow.fileRank, Strategy.scope, FileScope.rank, FileScope.preferred, he, hf, empty]
  | stripRevision | anyRevision => rfl

/-- Among the entries that a strategy accepts, the database's order is the order of places. -/
theorem place_le_of_preferredTo {f : EntryRow} (he : (s.scope file).accepts e.file = true)
    (hf : (s.scope file).accepts f.file = true) (preferred : preferredTo (s.scope file) e f = true) :
    e.place file s ≤ f.place file s := by
  have before := fileRank_lt_iff he hf
  have after := fileRank_lt_iff hf he
  rw [EntryRow.place_le_iff]
  rcases Prod.Lex.toLex_le_toLex.mp (preferredTo_iff.mp preferred) with first | ⟨same, older⟩
  · exact .inr ⟨rfl, .inl (before.mpr first)⟩
  · have same : (s.scope file).rank e.file = (s.scope file).rank f.file := same
    exact .inr ⟨rfl, .inr ⟨by omega, older⟩⟩

theorem Strategy.idxOf_lt_of_order {front rest : List Strategy} {t : Strategy}
    (split : Strategy.order = front ++ s :: rest) (later : t ∈ rest) :
    Strategy.order.idxOf s < Strategy.order.idxOf t := by
  have ascending : Strategy.order.Pairwise fun s t =>
      Strategy.order.idxOf s < Strategy.order.idxOf t := by decide
  have rel : ∀ {s t}, (s :: rest).Sublist Strategy.order → t ∈ rest →
      Strategy.order.idxOf s < Strategy.order.idxOf t := fun sub later =>
    List.rel_of_pairwise_cons (ascending.sublist sub) later
  exact rel (split ▸ List.sublist_append_right front _) later

/-- The entry that a strategy finds for a key of a file. -/
def found? (a : Archive) (versionId : RowId) (file key : String) (s : Strategy) :
    Option EntryRow :=
  (s.lookup? file key).bind (a.firstMatch? versionId)

theorem found?_eq_some_iff :
    a.found? versionId file key s = some e ↔
      ∃ p, s.pattern? key = some p ∧ a.firstMatch? versionId ⟨p, s.scope file⟩ = some e := by
  rw [found?, Strategy.lookup?_eq, Option.bind_map, Option.bind_eq_some_iff]
  rfl

/-- What a strategy finds is its first candidate. -/
theorem found?_spec (zeroless : Zeroless key) (found : a.found? versionId file key s = some e) :
    a.Candidate versionId file key s e ∧
      ∀ f, a.Candidate versionId file key s f → e.place file s ≤ f.place file s := by
  obtain ⟨p, pattern, first⟩ := found?_eq_some_iff.mp found
  obtain ⟨mem, spelled, filed, least⟩ := firstMatch?_spec (zeroless.text_pattern? pattern) first
  refine ⟨candidate_iff.mpr ⟨mem, filed, p, pattern, spelled⟩, fun f candidate => ?_⟩
  obtain ⟨mem', filed', p', pattern', spelled'⟩ := candidate_iff.mp candidate
  obtain rfl := Option.some.inj (pattern.symm.trans pattern')
  exact place_le_of_preferredTo filed filed' (least f mem' spelled' filed')

/-- A strategy that has a candidate finds one. -/
theorem not_candidate_of_found? (zeroless : Zeroless key)
    (found : a.found? versionId file key s = none) : ¬ a.Candidate versionId file key s e := by
  intro candidate
  obtain ⟨mem, filed, p, pattern, spelled⟩ := candidate_iff.mp candidate
  have first : a.firstMatch? versionId ⟨p, s.scope file⟩ = none := by
    rw [Option.eq_none_iff_forall_ne_some]
    intro f found'
    rw [found?_eq_some_iff.mpr ⟨p, pattern, found'⟩] at found
    cases found
  rw [firstMatch?_eq_none_iff (zeroless.text_pattern? pattern)] at first
  rw [first e mem spelled] at filed
  cases filed

end Archive

/-! ### What a key means -/

namespace Archive

variable {a : Archive} {versionId : RowId} {file rawKey : String} {r : Resolution}

theorem resolve?_eq_findSome? :
    a.resolve? versionId file rawKey = Strategy.order.findSome? fun s =>
      (a.found? versionId file (Key.normalize rawKey) s).map (⟨·.id, s⟩) := rfl

/-- A key means a candidate that no candidate comes before. -/
theorem resolve?_spec (zeroless : Zeroless (Key.normalize rawKey))
    (h : a.resolve? versionId file rawKey = some r) :
    ∃ e, a.Candidate versionId file (Key.normalize rawKey) r.strategy e ∧ e.id = r.entryId ∧
      ∀ s f, a.Candidate versionId file (Key.normalize rawKey) s f →
        e.place file r.strategy ≤ f.place file s := by
  rw [resolve?_eq_findSome?, List.findSome?_eq_some_iff] at h
  obtain ⟨front, s, rest, split, finds, before⟩ := h
  obtain ⟨e, found, rfl⟩ := Option.map_eq_some_iff.mp finds
  obtain ⟨candidate, least⟩ := found?_spec zeroless found
  refine ⟨e, candidate, rfl, fun t f other => ?_⟩
  have tried := Strategy.mem_order t
  rw [split, List.mem_append, List.mem_cons] at tried
  rcases tried with earlier | rfl | later
  · exact absurd other (not_candidate_of_found? zeroless (Option.map_eq_none_iff.mp (before t earlier)))
  · exact least f other
  · exact EntryRow.place_le_iff.mpr (.inl (Strategy.idxOf_lt_of_order split later))

/-- A key means nothing exactly if it has no candidate. -/
theorem resolve?_eq_none_iff (zeroless : Zeroless (Key.normalize rawKey)) :
    a.resolve? versionId file rawKey = none ↔
      ∀ s e, ¬ a.Candidate versionId file (Key.normalize rawKey) s e := by
  constructor
  · intro none s e
    rw [resolve?_eq_findSome?, List.findSome?_eq_none_iff] at none
    exact not_candidate_of_found? zeroless (Option.map_eq_none_iff.mp (none s (Strategy.mem_order s)))
  · intro none
    rw [Option.eq_none_iff_forall_ne_some]
    intro r h
    obtain ⟨e, candidate, -⟩ := resolve?_spec zeroless h
    exact none _ e candidate

/-- A key means exactly the candidate that comes first. -/
theorem resolve?_eq_some_iff (zeroless : Zeroless (Key.normalize rawKey)) :
    a.resolve? versionId file rawKey = some r ↔
      ∃ e, a.Candidate versionId file (Key.normalize rawKey) r.strategy e ∧ e.id = r.entryId ∧
        ∀ s f, a.Candidate versionId file (Key.normalize rawKey) s f →
          e.place file r.strategy ≤ f.place file s := by
  refine ⟨resolve?_spec zeroless, ?_⟩
  rintro ⟨e, candidate, id, least⟩
  cases h : a.resolve? versionId file rawKey with
  | none => exact absurd candidate ((resolve?_eq_none_iff zeroless).mp h _ e)
  | some r' =>
    -- Both come first, so they have one place, which tells the strategy and the id.
    obtain ⟨e', candidate', id', least'⟩ := resolve?_spec zeroless h
    have same := le_antisymm (least' _ _ candidate) (least _ _ candidate')
    obtain ⟨strategies, ids⟩ := EntryRow.place_inj same
    rw [Option.some.injEq, Resolution.mk.injEq]
    exact ⟨id'.symm.trans (ids.trans id), strategies⟩

/-! ### What a candidate can be -/

namespace Candidate

variable {key : String} {s : Strategy} {e : EntryRow}

/-- A candidate is an entry of the version, of the file or of none. -/
theorem mem_and_isWithin (h : a.Candidate versionId file key s e) :
    e ∈ a.entries.rows ∧ e.versionId = versionId ∧ e.IsWithin file := by
  have reaches : e ∈ a.entriesOf versionId ∧ e.IsWithin file := by
    cases h with
    | exact mem named _ => exact ⟨mem, .inl named⟩
    | legacyFilePath mem legacy _ => exact ⟨mem, .inr legacy⟩
    | stripRevision mem within _ | anyRevision mem within _ _ _ => exact ⟨mem, within⟩
  obtain ⟨mem, within⟩ := reaches
  obtain ⟨row, version⟩ := List.mem_filter.mp mem
  exact ⟨row, beq_iff_eq.mp version, within⟩

/-- A key with a revision has no other revision of its base among its candidates. -/
theorem revision_eq (h : a.Candidate versionId file key s e) {base revision revision' : String}
    (revised : Key.IsRevision key base revision) (revised' : Key.IsRevision e.key base revision') :
    revision' = revision := by
  cases h with
  | exact _ _ same | legacyFilePath _ _ same =>
    rw [same] at revised'
    exact (revised'.unique revised).2
  | stripRevision _ _ stripped =>
    -- The base is its own revision's base, so it would be longer than itself.
    obtain ⟨own, -⟩ := stripped.unique revised
    have longer := congrArg String.length (own.symm.trans revised'.spelled)
    simp only [String.length_append] at longer
    have colon : (":" : String).length = 1 := rfl
    omega
  | anyRevision _ _ _ bare _ => exact absurd revised (bare _ _)

end Candidate

end Archive

namespace Action

variable {a : Archive}

/-- Resolving a key always succeeds and changes nothing. It gives the candidate that comes first,
and none exactly if there is no candidate. So the entry is of the version, and of the file or of
none; it is never another revision of a key that has one; and a key that has none means one of its
revisions if no entry is spelled like it. -/
theorem resolve_finds_first_candidate (paths : a.layout.hasFilePaths = true) {rawKey : String}
    (zeroless : Zeroless (Key.normalize rawKey)) (versionId : RowId) (file : String)
    (access : Access) :
    ∃ found : Option Resolution,
      (resolve versionId file rawKey).Ends access a found a ∧
      (∀ r, found = some r ↔
        ∃ e, a.Candidate versionId file (Key.normalize rawKey) r.strategy e ∧ e.id = r.entryId ∧
          ∀ s f, a.Candidate versionId file (Key.normalize rawKey) s f →
            e.place file r.strategy ≤ f.place file s) ∧
      (found = none ↔ ∀ s e, ¬ a.Candidate versionId file (Key.normalize rawKey) s e) ∧
      (∀ r, found = some r → ∃ e ∈ a.entries.rows, e.id = r.entryId ∧ e.versionId = versionId ∧
        e.IsWithin file ∧
        ∀ base revision revision', Key.IsRevision (Key.normalize rawKey) base revision →
          Key.IsRevision e.key base revision' → revision' = revision) ∧
      (Key.normalize rawKey ≠ "" →
        (∀ base revision, ¬ Key.IsRevision (Key.normalize rawKey) base revision) →
        (∀ e ∈ a.entries.rows, e.versionId = versionId → e.IsWithin file →
          e.key ≠ Key.normalize rawKey) →
        (∃ e ∈ a.entries.rows, e.versionId = versionId ∧ e.IsWithin file ∧
          ∃ revision, Key.IsRevision e.key (Key.normalize rawKey) revision) →
        ∃ e ∈ a.entries.rows, found = some ⟨e.id, .anyRevision⟩ ∧ e.versionId = versionId ∧
          e.IsWithin file ∧ ∃ revision, Key.IsRevision e.key (Key.normalize rawKey) revision) := by
  refine ⟨a.resolve? versionId file rawKey, (ends_resolve_iff paths).mpr ⟨rfl, rfl⟩,
    fun r => Archive.resolve?_eq_some_iff zeroless, Archive.resolve?_eq_none_iff zeroless, ?_, ?_⟩
  · intro r h
    obtain ⟨e, candidate, id, -⟩ := Archive.resolve?_spec zeroless h
    obtain ⟨row, version, within⟩ := candidate.mem_and_isWithin
    exact ⟨e, row, id, version, within, fun _ _ _ => candidate.revision_eq⟩
  · rintro nonempty bare absent ⟨f, row, version, within, revision, revised⟩
    have other : a.Candidate versionId file (Key.normalize rawKey) .anyRevision f :=
      .anyRevision (List.mem_filter.mpr ⟨row, beq_iff_eq.mpr version⟩) within nonempty bare revised
    cases h : a.resolve? versionId file rawKey with
    | none => exact absurd other ((Archive.resolve?_eq_none_iff zeroless).mp h _ f)
    | some r =>
      obtain ⟨e, candidate, id, -⟩ := Archive.resolve?_spec zeroless h
      obtain ⟨row, version, within⟩ := candidate.mem_and_isWithin
      obtain ⟨entryId, strategy⟩ := r
      obtain rfl : e.id = entryId := id
      cases candidate with
      | exact _ _ same | legacyFilePath _ _ same =>
        exact absurd same (absent e row version within)
      | stripRevision _ _ stripped => exact absurd stripped (bare _ _)
      | anyRevision _ _ _ _ revised => exact ⟨e, row, rfl, version, within, _, revised⟩

/-- A key without a revision means the one in its file, though revisions with lower numbers and
lower ids stand in entries without a file, and the key itself in another version. -/
theorem resolve_prefers_file_to_id :
    let a : Archive :=
      { layout := .extended
        entries := ⟨[⟨1, 1, "k:1", "A", none⟩, ⟨2, 1, "k:2", "B", some ""⟩,
          ⟨3, 1, "k:30", "C", some "a.yml"⟩, ⟨4, 2, "k", "D", some "a.yml"⟩,
          ⟨5, 1, "k", "E", some "b.yml"⟩], 5⟩ }
    a.layout.hasFilePaths = true ∧ Zeroless (Key.normalize " k: ") ∧
    (resolve 1 "a.yml" " k: ").Ends { now := 1 } a (some ⟨3, .anyRevision⟩) a ∧
    ∃ e, a.Candidate 1 "a.yml" "k" .anyRevision e ∧ e.id = 3 ∧
      ∀ s f, a.Candidate 1 "a.yml" "k" s f → e.place "a.yml" .anyRevision ≤ f.place "a.yml" s := by
  intro a
  have key : Key.normalize " k: " = "k" := by decide +kernel
  have zeroless : Zeroless (Key.normalize " k: ") := by decide +kernel
  obtain ⟨found, ends, means, -⟩ :=
    resolve_finds_first_candidate (a := a) rfl zeroless 1 "a.yml" { now := 1 }
  have answer : a.resolve? 1 "a.yml" " k: " = some ⟨3, .anyRevision⟩ := by decide +kernel
  obtain rfl : found = some ⟨3, .anyRevision⟩ :=
    ((ends_resolve_iff rfl).mp ends).1.trans answer
  rw [key] at means
  exact ⟨rfl, zeroless, ends, (means ⟨3, .anyRevision⟩).mp rfl⟩

end Action

end LocalizationMemory
