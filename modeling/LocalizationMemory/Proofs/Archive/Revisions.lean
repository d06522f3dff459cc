import LocalizationMemory.Proofs.Archive.Preference

/-!
# The revisions of a base

A key is split at its last colon if decimal digits follow and something stands before,
and joining the parts again gives the key. To find the revisions of a base among stored
keys, the database compares so many of their first characters with the base and a colon
as these have, and only keys that pass are split and compared by their bases. No revision
of the base is lost in the first stage, whatever characters the base is made of and
however many colons it has, and what is left after the second are its revisions alone.

## Main definitions

* `Archive.accepted` — the entries that a lookup can answer with, the preferred one first

## Main results

* `Key.splitRevision_eq_none_iff` — the keys that do not split
* `KeyPattern.admits_anyRevisionOf_iff` — what the first stage lets through
* `Archive.mem_accepted_anyRevisionOf_iff` — what is left after the second
* `Archive.candidates_eq_nil_of_zero` — a base with a zero character has no candidate
* `Archive.finds_exactly_revisions` — splitting a key and looking its base up
-/

namespace LocalizationMemory

/-! ### Splitting -/

theorem Key.isDigit_iff {c : Char} : isDigit c = true ↔ '0' ≤ c ∧ c ≤ '9' := by
  simp only [isDigit, Bool.and_eq_true, decide_eq_true_eq]
  exact Iff.rfl

/-- The parts of a key that splits, with the characters that are digits. -/
theorem Key.splitRevision_eq_some_iff_digits {key base revision : String} :
    splitRevision key = some (base, revision) ↔
      key = base ++ ":" ++ revision ∧ base ≠ "" ∧ revision ≠ "" ∧
        ∀ c ∈ revision.toList, '0' ≤ c ∧ c ≤ '9' := by
  simp only [splitRevision_eq_some_iff, isDigit_iff]

/-- A key that does not split has, after each colon with something before it and after it, a
character that is no digit. -/
theorem Key.splitRevision_eq_none_iff {key : String} :
    splitRevision key = none ↔ ∀ base revision : String,
      key = base ++ ":" ++ revision → base ≠ "" → revision ≠ "" →
        ∃ c ∈ revision.toList, ¬ ('0' ≤ c ∧ c ≤ '9') := by
  rw [Option.eq_none_iff_forall_ne_some, Prod.forall]
  refine forall₂_congr fun base revision => ?_
  rw [ne_eq, splitRevision_eq_some_iff_digits]
  push Not
  rfl

/-! ### The first stage -/

theorem beforeZero_append {front rest : List Char} (zeroless : ∀ c ∈ front, c.toNat ≠ 0) :
    beforeZero (front ++ rest) = front ++ beforeZero rest := by
  rw [beforeZero, List.takeWhile_append_of_pos fun c hc => decide_eq_true (zeroless c hc)]
  rfl

/-- A base without a zero character can be followed by a colon without getting one. -/
theorem Zeroless.append_colon {base : String} (zeroless : Zeroless base) :
    ∀ c ∈ (base ++ ":").toList, c.toNat ≠ 0 := by
  intro c hc
  rw [String.toList_append, List.mem_append] at hc
  rcases hc with hc | hc
  · exact zeroless c hc
  · obtain rfl : c = ':' := by simpa using hc
    decide

/-- The database lets through what begins with the base and a colon. -/
theorem KeyPattern.admits_anyRevisionOf_iff {base stored : String} (zeroless : Zeroless base) :
    (anyRevisionOf base).admits stored = true ↔ (base ++ ":").toList <+: stored.toList := by
  have start := zeroless.append_colon
  rw [admits, beq_iff_eq, beforeZero_eq_self start]
  constructor
  · intro first
    rw [← first]
    exact (List.take_prefix _ _).trans (List.takeWhile_prefix _)
  · rintro ⟨rest, split⟩
    rw [← split, beforeZero_append start, List.take_left]

/-- What the database compares stops at a zero character, so nothing is like a base that has one. -/
theorem KeyPattern.admits_anyRevisionOf_of_zero {base : String} (zero : ¬ Zeroless base)
    (stored : String) : (anyRevisionOf base).admits stored = false := by
  rw [Zeroless] at zero
  push Not at zero
  obtain ⟨c, hc, isZero⟩ := zero
  rw [admits, beq_eq_false_iff_ne]
  intro same
  -- What is compared has no zero character, and the base has one.
  have mem : c ∈ (beforeZero stored.toList).take (beforeZero (base ++ ":").toList).length := by
    rw [same, String.toList_append]
    exact List.mem_append_left _ hc
  have nonzero := List.mem_takeWhile_imp (List.mem_of_mem_take mem)
  exact absurd isZero (of_decide_eq_true nonzero)

/-! ### Both stages -/

namespace Archive

variable {a : Archive} {versionId : RowId} {lookup : Lookup} {scope : FileScope} {base : String}
  {e : EntryRow}

/-- The entries that a lookup can answer with, the preferred one first: the rows that the database
picks, without those whose keys do not meet the pattern. -/
def accepted (a : Archive) (versionId : RowId) (lookup : Lookup) : List EntryRow :=
  (a.candidates versionId lookup).filter (lookup.key.accepts ·.key)

/-- A lookup is answered with the first entry that it can be answered with. -/
theorem head?_accepted : (a.accepted versionId lookup).head? = a.firstMatch? versionId lookup :=
  List.head?_filter

/-- After the first stage the rows are left whose keys begin with the base and a colon. -/
theorem mem_candidates_anyRevisionOf_iff (zeroless : Zeroless base) :
    e ∈ a.candidates versionId ⟨.anyRevisionOf base, scope⟩ ↔
      e ∈ a.entries.rows ∧ e.versionId = versionId ∧ scope.accepts e.file = true ∧
        (base ++ ":").toList <+: e.key.toList := by
  rw [← KeyPattern.admits_anyRevisionOf_iff zeroless]
  simp only [candidates, mem_sortBy, List.mem_filter, mem_entriesOf_iff, Bool.and_eq_true]
  constructor
  · rintro ⟨⟨row, version⟩, admits, file⟩
    exact ⟨row, version, file, admits⟩
  · rintro ⟨row, version, file, admits⟩
    exact ⟨⟨row, version⟩, admits, file⟩

/-- After both stages the revisions of the base are left. -/
theorem mem_accepted_anyRevisionOf_iff (zeroless : Zeroless base) :
    e ∈ a.accepted versionId ⟨.anyRevisionOf base, scope⟩ ↔
      e ∈ a.entries.rows ∧ e.versionId = versionId ∧ scope.accepts e.file = true ∧
        ∃ revision, Key.splitRevision e.key = some (base, revision) := by
  have admitted : (KeyPattern.anyRevisionOf base).accepts e.key = true →
      (KeyPattern.anyRevisionOf base).admits e.key = true :=
    KeyPattern.admits_of_accepts (p := .anyRevisionOf base) zeroless
  simp only [accepted, candidates, List.mem_filter, mem_sortBy, Bool.and_eq_true,
    mem_entriesOf_iff, ← KeyPattern.accepts_anyRevisionOf_iff]
  constructor
  · rintro ⟨⟨⟨row, version⟩, -, file⟩, accepts⟩
    exact ⟨row, version, file, accepts⟩
  · rintro ⟨row, version, file, accepts⟩
    exact ⟨⟨⟨row, version⟩, admitted accepts, file⟩, accepts⟩

/-- A base with a zero character has no candidate, so no revision of it is found. -/
theorem candidates_eq_nil_of_zero (zero : ¬ Zeroless base) :
    a.candidates versionId ⟨.anyRevisionOf base, scope⟩ = [] := by
  refine List.eq_nil_iff_forall_not_mem.mpr fun e he => ?_
  simp [candidates, KeyPattern.admits_anyRevisionOf_of_zero zero] at he

/-- Splitting a key and looking a base up are exact. A key splits exactly if it is a base, a colon
and decimal digits, and then in one way. Whatever is stored, the entries that a lookup of the
revisions of a base can be answered with are those in its scope whose keys split into the base and
something: what is lost in the first stage, where beginnings are compared, does not split so. The
answer is the first of them in the order of preference. Only a base that has a zero character
finds nothing. -/
theorem finds_exactly_revisions :
    (∀ key base revision, Key.splitRevision key = some (base, revision) ↔
      key = base ++ ":" ++ revision ∧ base ≠ "" ∧ revision ≠ "" ∧
        ∀ c ∈ revision.toList, '0' ≤ c ∧ c ≤ '9') ∧
    (∀ key, Key.splitRevision key = none ↔ ∀ base revision : String,
      key = base ++ ":" ++ revision → base ≠ "" → revision ≠ "" →
        ∃ c ∈ revision.toList, ¬ ('0' ≤ c ∧ c ≤ '9')) ∧
    ∀ (base : String) (a : Archive) (versionId : RowId) (scope : FileScope),
      let lookup : Lookup := ⟨.anyRevisionOf base, scope⟩
      (Zeroless base →
        (∀ e, e ∈ a.candidates versionId lookup ↔ e ∈ a.entries.rows ∧ e.versionId = versionId ∧
          scope.accepts e.file = true ∧ (base ++ ":").toList <+: e.key.toList) ∧
        ∀ e, e ∈ a.accepted versionId lookup ↔ e ∈ a.entries.rows ∧ e.versionId = versionId ∧
          scope.accepts e.file = true ∧
            ∃ revision, Key.splitRevision e.key = some (base, revision)) ∧
      (¬ Zeroless base → a.accepted versionId lookup = []) ∧
      (a.accepted versionId lookup).Pairwise (fun e f => preferredTo scope e f = true) ∧
      ∀ access, a.layout.hasFilePaths = true →
        (Action.findEntry versionId lookup).Ends access a (a.accepted versionId lookup).head? a := by
  refine ⟨fun _ _ _ => Key.splitRevision_eq_some_iff_digits,
    fun _ => Key.splitRevision_eq_none_iff, fun base a versionId scope => ?_⟩
  intro lookup
  refine ⟨fun zeroless => ⟨fun e => mem_candidates_anyRevisionOf_iff zeroless,
    fun e => mem_accepted_anyRevisionOf_iff zeroless⟩, fun zero => ?_, ?_, fun access paths => ?_⟩
  · rw [accepted, candidates_eq_nil_of_zero zero, List.filter_nil]
  · have ordered : (a.candidates versionId lookup).Pairwise
        fun e f => preferredTo lookup.file e f = true := pairwise_candidates
    exact ordered.filter _
  · rw [head?_accepted]
    exact Action.ends_readFilesBy_iff.mpr ⟨paths, rfl, rfl⟩

/-- A base with a colon of its own and a character of two bytes, among keys that begin like one of
its revisions. The entry of the file is found, though one without a file has a lower id. -/
theorem finds_exactly_revisions_of_colons :
    let a : Archive :=
      { layout := .current
        entries := ⟨[⟨1, 1, "é:1:7", "A", none⟩, ⟨2, 1, "é:1", "B", some "a.yml"⟩,
          ⟨3, 1, "é:1:7:8", "C", some "a.yml"⟩, ⟨4, 1, "é:1:x", "D", some "a.yml"⟩,
          ⟨5, 1, "é:1:30", "E", some "a.yml"⟩, ⟨6, 2, "é:1:9", "F", some "a.yml"⟩], 6⟩ }
    let scope : FileScope := .exactOrLegacy "a.yml"
    Zeroless "é:1" ∧ a.layout.hasFilePaths = true ∧
    (∀ e, e ∈ a.accepted 1 ⟨.anyRevisionOf "é:1", scope⟩ ↔ e ∈ a.entries.rows ∧ e.versionId = 1 ∧
      scope.accepts e.file = true ∧ ∃ revision, Key.splitRevision e.key = some ("é:1", revision)) ∧
    (a.accepted 1 ⟨.anyRevisionOf "é:1", scope⟩).map (·.id) = [5, 1] ∧
    (Action.findEntry 1 ⟨.anyRevisionOf "é:1", scope⟩).Ends { now := 1 } a
      (some ⟨5, 1, "é:1:30", "E", some "a.yml"⟩) a := by
  intro a scope
  have zeroless : Zeroless "é:1" := by decide +kernel
  obtain ⟨-, -, lookups⟩ := finds_exactly_revisions
  obtain ⟨within, -, -, ends⟩ := lookups "é:1" a 1 scope
  have ids : (a.accepted 1 ⟨.anyRevisionOf "é:1", scope⟩).map (·.id) = [5, 1] := by decide +kernel
  have first : (a.accepted 1 ⟨.anyRevisionOf "é:1", scope⟩).head? =
      some ⟨5, 1, "é:1:30", "E", some "a.yml"⟩ := by decide +kernel
  exact ⟨zeroless, rfl, (within zeroless).2, ids, first ▸ ends { now := 1 } rfl⟩

end Archive

end LocalizationMemory
