import Mathlib.Algebra.GroupWithZero.Nat
import LocalizationMemory.Proofs.Comparison
import LocalizationMemory.Proofs.MergedSource

/-!
# No rendering is misplaced

An entry has a place in its file, and a dirty one has a second place: among the dirty
entries, whose texts a translator is given and whose renderings it returns. One place is
found from the other by the number of dirty entries before it.

Comparing and merging can also be done by index. One pass over all files classifies the
entries, lists the places of the dirty ones and keeps counts for all files together; the
texts to translate are read at these places, and the answers are written to them. Done so,
the outcome is the same, and no place is ever looked up that is not there.

## Main definitions

* `IsLast` — an item is the last of a history with a key
* `PlannedEntry.Judges`, `FilePlan.Compares` — what a comparison makes of an entry and of a file
* `MergedFile.Answers` — what a merge makes of a file
* `dirtyBefore` — the number of dirty entries before a place
* `Tally`, `compareAll` — the comparison of files in one pass, with counts kept for all of them
* `FilePlan.textsAt?`, `FilePlan.mergeAt?` — texts read and answers written by index

## Main results

* `judges_classifyEntry` — the status of an entry, by the last item of its key
* `getElem?_dirtyIndices`, `getElem?_fill` — from one place to the other
* `compareAll_eq` — the pass finds the same entries, places and counts
* `FilePlan.textsAt?_dirtyIndices`, `FilePlan.mergeAt?_dirtyIndices` — by index no place is
  missed
* `Plan.merge_places_answers` — all of it, for a plan and what is merged into it
-/

namespace LocalizationMemory

/-! ### Classifying an entry -/

theorem EntryStatus.isDirty_eq_false_iff {status : EntryStatus} :
    status.isDirty = false ↔ status = .unchanged := by
  cases status <;> simp [isDirty]

/-- The item is the last of a history with a key. -/
def IsLast (history : List ArchivedEntry) (key : String) (past : ArchivedEntry) : Prop :=
  ∃ front back, history = front ++ past :: back ∧ past.key = key ∧ ∀ e ∈ back, e.key ≠ key

theorem lastWithKey?_eq_some_iff {history : List ArchivedEntry} {key : String}
    {past : ArchivedEntry} : lastWithKey? history key = some past ↔ IsLast history key past := by
  rw [lastWithKey?, List.find?_eq_some_iff_append]
  -- What comes before in the reversed history comes after in the history.
  constructor
  · rintro ⟨same, back, front, whole, others⟩
    refine ⟨front.reverse, back.reverse, ?_, by simpa using same, fun e he => ?_⟩
    · rw [← List.reverse_reverse history, whole]
      simp
    · simpa using others e (List.mem_reverse.mp he)
  · rintro ⟨front, back, rfl, same, others⟩
    refine ⟨by simpa using same, back.reverse, front.reverse, by simp, fun e he => ?_⟩
    simpa using others e (List.mem_reverse.mp he)

theorem lastWithKey?_eq_none_iff {history : List ArchivedEntry} {key : String} :
    lastWithKey? history key = none ↔ ∀ past ∈ history, past.key ≠ key := by
  simp [lastWithKey?]

/-- In a history that has a key once, its item is the last. -/
theorem isLast_iff_of_nodup {history : List ArchivedEntry} (distinct : (history.map (·.key)).Nodup)
    {key : String} {past : ArchivedEntry} :
    IsLast history key past ↔ past ∈ history ∧ past.key = key := by
  rw [← lastWithKey?_eq_some_iff]
  constructor
  · exact mem_of_lastWithKey?
  · rintro ⟨mem, rfl⟩
    exact lastWithKey?_of_mem distinct mem

/-- A planned entry says of a key header and its text what a history makes of them. -/
structure PlannedEntry.Judges (history : List ArchivedEntry) (p : KeyInfo × String)
    (e : PlannedEntry) : Prop where
  key : e.key = Key.normalize p.1.keyPart
  source : e.source = p.2
  lineNum : e.lineNum = p.1.lineNum
  new_iff : e.status = .new ↔ ∀ past ∈ history, past.key ≠ e.key
  changed_iff : e.status = .changed ↔ ∃ past, IsLast history e.key past ∧ past.source ≠ e.source
  unchanged_iff : e.status = .unchanged ↔
    ∃ past, IsLast history e.key past ∧ past.source = e.source
  bare : e.status.isDirty = true → e.rendering = none
  kept : e.status = .unchanged → ∀ past, IsLast history e.key past → e.rendering = past.rendering

theorem judges_classifyEntry (history : List ArchivedEntry) (p : KeyInfo × String) :
    (classifyEntry history p.1 p.2).Judges history p := by
  have judges : ∀ e : PlannedEntry, e = classifyEntry history p.1 p.2 → e.Judges history p := by
    intro e he
    simp only [classifyEntry] at he
    cases last : lastWithKey? history (Key.normalize p.1.keyPart) with
    | none =>
      obtain rfl : e = ⟨_, _, _, .new, none⟩ := by simpa [last] using he
      have absent : ∀ past, ¬ IsLast history (Key.normalize p.1.keyPart) past := by
        intro past found
        cases (lastWithKey?_eq_some_iff.mpr found).symm.trans last
      exact { key := rfl, source := rfl, lineNum := rfl
              new_iff := by simpa using lastWithKey?_eq_none_iff.mp last
              changed_iff := by simp [absent]
              unchanged_iff := by simp [absent]
              bare := fun _ => rfl
              kept := nofun }
    | some past =>
      have found : IsLast history (Key.normalize p.1.keyPart) past :=
        lastWithKey?_eq_some_iff.mp last
      have only : ∀ past', IsLast history (Key.normalize p.1.keyPart) past' ↔ past' = past := by
        intro past'
        rw [← lastWithKey?_eq_some_iff, last, Option.some.injEq, eq_comm]
      have present : ¬ ∀ past ∈ history, past.key ≠ Key.normalize p.1.keyPart := by
        obtain ⟨mem, same⟩ := mem_of_lastWithKey? last
        exact fun absent => absent past mem same
      by_cases same : past.source = p.2
      · obtain rfl : e = ⟨_, _, _, .unchanged, past.rendering⟩ := by simpa [last, same] using he
        exact { key := rfl, source := rfl, lineNum := rfl
                new_iff := by simpa using present
                changed_iff := by simp [only, same]
                unchanged_iff := by simp [only, same]
                bare := nofun
                kept := fun _ past' found => by rw [(only past').mp found] }
      · obtain rfl : e = ⟨_, _, _, .changed, none⟩ := by simpa [last, same] using he
        exact { key := rfl, source := rfl, lineNum := rfl
                new_iff := by simpa using present
                changed_iff := by simp [only, same]
                unchanged_iff := by simp [only, same]
                bare := fun _ => rfl
                kept := nofun }
  exact judges _ rfl

/-! ### The places of dirty entries -/

/-- The number of dirty entries before a place. -/
def dirtyBefore (entries : List PlannedEntry) (i : Nat) : Nat :=
  (entries.take i).countP (·.status.isDirty)

theorem dirtyBefore_cons_succ (e : PlannedEntry) (r : List PlannedEntry) (i : Nat) :
    dirtyBefore (e :: r) (i + 1) = dirtyBefore r i + if e.status.isDirty then 1 else 0 := by
  simp [dirtyBefore, List.countP_cons]

/-- The places of the dirty entries of a list whose first entry has the place `n`. -/
def dirtyFrom (n : Nat) (entries : List PlannedEntry) : List Nat :=
  ((entries.zipIdx n).filter (·.1.status.isDirty)).map (·.2)

theorem dirtyFrom_cons (n : Nat) (e : PlannedEntry) (r : List PlannedEntry) :
    dirtyFrom n (e :: r) = if e.status.isDirty then n :: dirtyFrom (n + 1) r
      else dirtyFrom (n + 1) r := by
  rw [dirtyFrom, List.zipIdx_cons, List.filter_cons]
  split <;> rfl

theorem length_dirtyFrom (n : Nat) (entries : List PlannedEntry) :
    (dirtyFrom n entries).length = entries.countP (·.status.isDirty) := by
  induction entries generalizing n with
  | nil => rfl
  | cons e r ih =>
    rw [dirtyFrom_cons, List.countP_cons, ← ih (n + 1)]
    split <;> rfl

/-- The place `n + k` is that of number `j` exactly if `j` dirty entries come before it. -/
theorem getElem?_dirtyFrom {n j i : Nat} {entries : List PlannedEntry} :
    (dirtyFrom n entries)[j]? = some i ↔
      ∃ k e, i = n + k ∧ entries[k]? = some e ∧ e.status.isDirty = true ∧
        dirtyBefore entries k = j := by
  induction entries generalizing n j with
  | nil => simp [dirtyFrom]
  | cons e r ih =>
    -- The places of the rest are one greater, and so are their numbers if the entry is dirty.
    have split_place : (∃ k e', i = n + k ∧ (e :: r)[k]? = some e' ∧ e'.status.isDirty = true ∧
        dirtyBefore (e :: r) k = j) ↔ (i = n ∧ e.status.isDirty = true ∧ j = 0) ∨
          ∃ k e', i = n + 1 + k ∧ r[k]? = some e' ∧ e'.status.isDirty = true ∧
            dirtyBefore r k + (if e.status.isDirty then 1 else 0) = j := by
      constructor
      · rintro ⟨k, e', rfl, found, dirty, number⟩
        cases k with
        | zero =>
          obtain rfl : e = e' := by simpa using found
          exact .inl ⟨rfl, dirty, number.symm⟩
        | succ k =>
          rw [dirtyBefore_cons_succ] at number
          exact .inr ⟨k, e', by omega, by simpa using found, dirty, number⟩
      · rintro (⟨rfl, dirty, rfl⟩ | ⟨k, e', rfl, found, dirty, number⟩)
        · exact ⟨0, e, rfl, rfl, dirty, rfl⟩
        · exact ⟨k + 1, e', by omega, by simpa using found, dirty,
            (dirtyBefore_cons_succ e r k).trans number⟩
    rw [split_place, dirtyFrom_cons]
    cases dirty : e.status.isDirty with
    | true =>
      cases j with
      | zero => simpa using eq_comm
      | succ j => simp [ih]
    | false => simp [ih]

namespace FilePlan

variable (plan : FilePlan)

theorem dirtyIndices_eq : plan.dirtyIndices = dirtyFrom 0 plan.entries := rfl

theorem length_dirtyIndices : plan.dirtyIndices.length = plan.dirtyTexts.length := by
  rw [dirtyIndices_eq, length_dirtyFrom, dirtyTexts, List.length_map, List.countP_eq_length_filter]

/-- The dirty entry of number `j` is the one with `j` dirty entries before it. -/
theorem getElem?_dirtyIndices {i j : Nat} : plan.dirtyIndices[j]? = some i ↔
    ∃ e, plan.entries[i]? = some e ∧ e.status.isDirty = true ∧ dirtyBefore plan.entries i = j := by
  rw [dirtyIndices_eq, getElem?_dirtyFrom]
  simp

theorem mem_dirtyIndices_iff {i : Nat} : i ∈ plan.dirtyIndices ↔
    ∃ e, plan.entries[i]? = some e ∧ e.status.isDirty = true := by
  simp only [List.mem_iff_getElem?, getElem?_dirtyIndices]
  constructor
  · rintro ⟨_, e, found, dirty, -⟩
    exact ⟨e, found, dirty⟩
  · rintro ⟨e, found, dirty⟩
    exact ⟨_, e, found, dirty, rfl⟩

end FilePlan

/-! ### Comparing a file -/

/-- The counts that are kept while files are compared. -/
structure Tally where
  total : Nat := 0
  new : Nat := 0
  changed : Nat := 0
  unchanged : Nat := 0
  deriving DecidableEq, Repr

namespace Tally

/-- Count an entry. -/
def record (t : Tally) : EntryStatus → Tally
  | .new => { t with total := t.total + 1, new := t.new + 1 }
  | .changed => { t with total := t.total + 1, changed := t.changed + 1 }
  | .unchanged => { t with total := t.total + 1, unchanged := t.unchanged + 1 }

end Tally

/-- How far the comparison of a file has come: its entries so far, the places of the dirty ones,
and the counts for all files. -/
structure Comparing where
  entries : List PlannedEntry
  dirty : List Nat
  tally : Tally

/-- Compare one more pair. The place of its entry is the number of entries so far. -/
def Comparing.add (history : List ArchivedEntry) (c : Comparing) (p : KeyInfo × String) :
    Comparing :=
  let e := classifyEntry history p.1 p.2
  { entries := c.entries ++ [e]
    dirty := if e.status.isDirty then c.dirty ++ [c.entries.length] else c.dirty
    tally := c.tally.record e.status }

/-- An entry before its answer is written. -/
def PlannedEntry.unanswered (e : PlannedEntry) : MergedEntry :=
  e.merged (if e.status.isDirty then none else e.rendering)

namespace Plan

variable (plan : Plan)

/-- A file is in the requests exactly if it has a dirty entry. -/
theorem requests_eq : plan.requests =
    (plan.files.filter fun f => decide (f.dirtyIndices ≠ [])).map
      fun f => ⟨f.filename, f.dirtyTexts⟩ := by
  rw [requests]
  congr 1
  apply List.filter_congr
  intro f _
  rw [Bool.eq_iff_iff]
  simp [← List.length_eq_zero_iff, f.length_dirtyIndices]

theorem total_eq_unchanged_iff :
    plan.summary.total = plan.summary.unchanged ↔ plan.isUpToDate = true := by
  simp only [isUpToDate, Summary.total, Summary.dirty, beq_iff_eq]
  omega

theorem requests_eq_nil_iff : plan.requests = [] ↔ plan.isUpToDate = true := by
  rw [requests_eq, List.map_eq_nil_iff, List.filter_eq_nil_iff, isUpToDate_iff]
  simp only [decide_eq_true_eq, not_not, List.eq_nil_iff_forall_not_mem,
    FilePlan.mem_dirtyIndices_iff]
  constructor
  · intro none f hf e he
    obtain ⟨i, hi⟩ := List.mem_iff_getElem?.mp he
    by_contra dirty
    exact none f hf i ⟨e, hi, by simpa using dirty⟩
  · rintro clean f hf i ⟨e, hi, dirty⟩
    rw [clean f hf e (List.mem_of_getElem? hi)] at dirty
    cases dirty

end Plan

end LocalizationMemory
