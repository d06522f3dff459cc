import Mathlib.Data.List.TakeWhile
import LocalizationMemory.Archive.Resolution
import LocalizationMemory.Key.Index
import LocalizationMemory.Proofs.Archive.Consistency
import LocalizationMemory.Proofs.Sorting

/-!
# What a lookup finds

A lookup is a pattern, which the key decides, and a scope, which the file decides. The
condition that the database checks first lets every key through that meets the pattern,
unless the pattern has a zero character. So where every entry names a file, a key means
the first entry of its file that meets the pattern of the first strategy for which there
is one.

## Main definitions

* `Strategy.pattern?`, `Strategy.scope` — the two parts of a lookup
* `Zeroless` — a text without a zero character

## Main results

* `Strategy.lookup?_eq` — a lookup is put together of its parts
* `KeyPattern.admits_of_accepts` — the first stage of a lookup loses nothing
* `Archive.resolve?_of_named` — the meaning of a key where every entry names a file
-/

namespace LocalizationMemory

/-- A text has no zero character. -/
def Zeroless (text : String) : Prop := ∀ c ∈ text.toList, c.toNat ≠ 0

instance (text : String) : Decidable (Zeroless text) :=
  List.decidableBAll (p := fun c : Char => c.toNat ≠ 0) text.toList

/-! ### The parts of a lookup -/

namespace Strategy

/-- The pattern that a strategy makes of a normalized key. -/
def pattern? : Strategy → String → Option KeyPattern
  | exact, key | legacyFilePath, key => some (.exact key)
  | stripRevision, key => (Key.splitRevision key).map fun p => .exact p.1
  | anyRevision, key => if Key.isRevisioned key then none else some (.anyRevisionOf key)

/-- The scope in which a strategy looks for a key of a file. -/
def scope : Strategy → String → FileScope
  | exact, file => .exact file
  | legacyFilePath, _ => .legacy
  | stripRevision, file | anyRevision, file => .exactOrLegacy file

/-- A lookup is put together of its parts. -/
theorem lookup?_eq (s : Strategy) (file key : String) :
    s.lookup? file key = (s.pattern? key).map fun p => ⟨p, s.scope file⟩ := by
  cases s with
  | exact => rfl
  | legacyFilePath => rfl
  | stripRevision => simp [lookup?, pattern?, scope, Function.comp_def]
  | anyRevision =>
    rw [lookup?, pattern?]
    split <;> rfl

end Strategy

/-- The key or the base that a pattern is made of. -/
def KeyPattern.text : KeyPattern → String
  | exact key => key
  | anyRevisionOf base => base

theorem Zeroless.text_pattern? {s : Strategy} {key : String} {p : KeyPattern}
    (zeroless : Zeroless key) (hp : s.pattern? key = some p) : Zeroless p.text := by
  cases s with
  | exact | legacyFilePath =>
    obtain rfl := Option.some.inj hp
    exact zeroless
  | stripRevision =>
    obtain ⟨⟨base, revision⟩, split, rfl⟩ := Option.map_eq_some_iff.mp hp
    obtain ⟨rfl, -⟩ := Key.splitRevision_eq_some_iff.mp split
    intro c hc
    exact zeroless c (by simp [show c ∈ base.toList from hc])
  | anyRevision =>
    rw [Strategy.pattern?] at hp
    split at hp
    · cases hp
    · obtain rfl := Option.some.inj hp
      exact zeroless

/-! ### What the database checks -/

theorem beforeZero_eq_self {cs : List Char} (zeroless : ∀ c ∈ cs, c.toNat ≠ 0) :
    beforeZero cs = cs :=
  List.takeWhile_eq_self_iff.mpr fun c hc => decide_eq_true (zeroless c hc)

/-- The first stage of a lookup loses nothing. -/
theorem KeyPattern.admits_of_accepts {p : KeyPattern} (zeroless : Zeroless p.text) {stored : String}
    (accepted : p.accepts stored = true) : p.admits stored = true := by
  cases p with
  | exact key => exact accepted
  | anyRevisionOf base =>
    obtain ⟨revision, split⟩ := accepts_anyRevisionOf_iff.mp accepted
    obtain ⟨rfl, -, -, digits⟩ := Key.splitRevision_eq_some_iff.mp split
    -- Neither the base nor the colon nor a digit is a zero character.
    have start : ∀ c ∈ (base ++ ":").toList, c.toNat ≠ 0 := by
      intro c hc
      rw [String.toList_append, List.mem_append] at hc
      rcases hc with hc | hc
      · exact zeroless c hc
      · obtain rfl : c = ':' := by simpa using hc
        decide
    have all : ∀ c ∈ (base ++ ":" ++ revision).toList, c.toNat ≠ 0 := by
      intro c hc
      rw [String.toList_append, List.mem_append] at hc
      rcases hc with hc | hc
      · exact start c hc
      · have digit := digits c hc
        simp only [Key.isDigit, Bool.and_eq_true, decide_eq_true_eq] at digit
        omega
    have parts : (base ++ ":" ++ revision).toList = (base ++ ":").toList ++ revision.toList :=
      String.toList_append
    rw [admits, beforeZero_eq_self start, beforeZero_eq_self all, parts, List.take_left]
    exact beq_self_eq_true _

/-! ### Where every entry names a file -/

namespace Archive

variable {a : Archive} {versionId : RowId} {file : String} {p : KeyPattern}

/-- The entries of a version all name a file. -/
def Named (a : Archive) (versionId : RowId) : Prop :=
  ∀ e ∈ a.entriesOf versionId, e.file ≠ none ∧ e.file ≠ some ""

theorem pairwise_entriesOfFile (ha : a.Consistent) :
    (a.entriesOfFile versionId file).Pairwise fun e f => e.id < f.id :=
  (ha.entries.ascending.filter _).filter _

/-- In a scope that comes to one file a lookup finds the first entry of the file that meets the
pattern. -/
theorem firstMatch?_of_scope (ha : a.Consistent) (zeroless : Zeroless p.text) {scope : FileScope}
    (oneFile : ∀ e ∈ a.entriesOf versionId, scope.accepts e.file = (e.file == some file)) :
    a.firstMatch? versionId ⟨p, scope⟩ =
      (a.entriesOfFile versionId file).find? (p.accepts ·.key) := by
  have picked : (a.entriesOf versionId).filter (fun e => p.admits e.key && scope.accepts e.file) =
      (a.entriesOfFile versionId file).filter (p.admits ·.key) := by
    rw [entriesOfFile, List.filter_filter]
    exact List.filter_congr fun e he => by rw [oneFile e he]
  -- Entries of one file have one rank, so their ids decide, and they stand in this order.
  have ordered : ((a.entriesOfFile versionId file).filter (p.admits ·.key)).Pairwise
      fun e f => preferredTo scope e f = true := by
    apply ((pairwise_entriesOfFile ha).filter _).imp_of_mem
    intro e f he hf less
    have named {e : EntryRow} (he : e ∈ (a.entriesOfFile versionId file).filter (p.admits ·.key)) :
        e.file = some file := by
      simpa using (List.mem_filter.mp (List.mem_filter.mp he).1).2
    rw [preferredTo, named he, named hf]
    exact decide_eq_true (.inr ⟨rfl, Int.le_of_lt less⟩)
  rw [firstMatch?, candidates, picked, sortBy_of_pairwise ordered, List.find?_filter]
  congr 1
  funext e
  simpa using KeyPattern.admits_of_accepts zeroless

theorem Named.firstMatch?_legacy (named : a.Named versionId) :
    a.firstMatch? versionId ⟨p, .legacy⟩ = none := by
  rw [firstMatch?, List.find?_eq_none]
  intro e he
  simp only [candidates, mem_sortBy, List.mem_filter, Bool.and_eq_true, FileScope.accepts,
    Bool.or_eq_true, beq_iff_eq] at he
  obtain ⟨mem, -, legacy⟩ := he
  exact absurd legacy (not_or.mpr ⟨(named e mem).2, (named e mem).1⟩)

/-- Where every entry names a file, a key means the first entry of its file that meets the pattern
of the first strategy for which there is one. -/
theorem resolve?_of_named (ha : a.Consistent) (named : a.Named versionId) {rawKey : String}
    (zeroless : Zeroless (Key.normalize rawKey)) :
    (a.resolve? versionId file rawKey).map (·.entryId) =
      (KeyIndex.strategies.findSome? fun s => (s.pattern? (Key.normalize rawKey)).bind fun p =>
        (a.entriesOfFile versionId file).find? (p.accepts ·.key)).map (·.id) := by
  have answer (s : Strategy) (oneFile : ∀ e ∈ a.entriesOf versionId,
      (s.scope file).accepts e.file = (e.file == some file)) :
      (s.lookup? file (Key.normalize rawKey)).bind (a.firstMatch? versionId) =
        (s.pattern? (Key.normalize rawKey)).bind fun p =>
          (a.entriesOfFile versionId file).find? (p.accepts ·.key) := by
    rw [Strategy.lookup?_eq, Option.bind_map]
    cases hp : s.pattern? (Key.normalize rawKey) with
    | none => rfl
    | some p => exact firstMatch?_of_scope ha (zeroless.text_pattern? hp) oneFile
  have either (e : EntryRow) (he : e ∈ a.entriesOf versionId) :
      (FileScope.exactOrLegacy file).accepts e.file = (e.file == some file) := by
    obtain ⟨present, nonempty⟩ := named e he
    rw [FileScope.accepts, beq_eq_false_iff_ne.mpr present, beq_eq_false_iff_ne.mpr nonempty,
      Bool.or_false, Bool.or_false]
  have legacy : (Strategy.legacyFilePath.lookup? file (Key.normalize rawKey)).bind
      (a.firstMatch? versionId) = none := named.firstMatch?_legacy
  calc (a.resolve? versionId file rawKey).map (·.entryId)
      = (Strategy.order.findSome? fun s =>
          (s.lookup? file (Key.normalize rawKey)).bind (a.firstMatch? versionId)).map (·.id) := by
        rw [resolve?, List.map_findSome?, List.map_findSome?]
        congr 1
        funext s
        exact Option.map_map ..
    _ = _ := by
        rw [Strategy.order, KeyIndex.strategies_eq]
        simp only [List.findSome?_cons, List.findSome?_nil, legacy, answer .exact fun _ _ => rfl,
          answer .stripRevision either, answer .anyRevision either]

end Archive

end LocalizationMemory
