import LocalizationMemory.Key

/-!
# Lookups and the strategies that build them

A key read from a file may be spelled otherwise than the stored one, and stored
lines from before files were recorded carry no file. A *lookup* is one condition
on stored lines, on the key and on the file. A *strategy* builds a lookup from a
normalized key and a file, or does not apply. The strategies are tried in a fixed
order and the first line found wins.

## Main definitions

* `KeyPattern` — an exact key, or any revision of a base
* `FileScope` — a named file, lines without a file, or both
* `Lookup` — a pattern and a scope
* `Strategy` — the four ways to look a key up, with `Strategy.order`
* `Strategy.lookup?` — the lookup a strategy builds

## Main results

* `KeyPattern.accepts_anyRevisionOf_iff` — the keys accepted for a base are the
  base, a colon and a revision
-/

namespace LocalizationMemory

/-- A condition on a stored key. -/
inductive KeyPattern where
  /-- The stored key is this one. -/
  | exact (key : String)
  /-- The stored key is this base with a revision. -/
  | anyRevisionOf (base : String)
  deriving DecidableEq, Repr

/-- The stored key meets the condition. -/
def KeyPattern.accepts : KeyPattern → String → Bool
  | exact key, stored => stored == key
  | anyRevisionOf base, stored =>
    match Key.splitRevision stored with
    | some (b, _) => b == base
    | none => false

/-- A condition on the file of a stored line. Lines that name no file, with an
empty file name or with none at all, count as legacy lines. -/
inductive FileScope where
  /-- The line is of this file. -/
  | exact (file : String)
  /-- The line names no file. -/
  | legacy
  /-- The line is of this file or names none. -/
  | exactOrLegacy (file : String)
  deriving DecidableEq, Repr

namespace FileScope

/-- The line's file meets the condition. -/
def accepts : FileScope → Option String → Bool
  | exact file, stored => stored == some file
  | legacy, stored => stored == some "" || stored == none
  | exactOrLegacy file, stored => stored == some file || stored == some "" || stored == none

/-- The file that is preferred among those accepted: the named one, and the
empty name where no file is named. -/
def preferred : FileScope → String
  | exact file => file
  | legacy => ""
  | exactOrLegacy file => file

/-- The place of a stored file in the order of preference: the preferred file
first, then other names, then no file at all. -/
def rank (scope : FileScope) : Option String → Nat
  | some file => if file = scope.preferred then 0 else 1
  | none => 2

end FileScope

/-- One condition on stored lines. -/
structure Lookup where
  key : KeyPattern
  file : FileScope
  deriving DecidableEq, Repr

/-- A way to look up a key. -/
inductive Strategy where
  /-- The key as it is, in the named file. -/
  | exact
  /-- The key as it is, among lines that name no file. -/
  | legacyFilePath
  /-- The base of a revisioned key, in the named file or among legacy lines. -/
  | stripRevision
  /-- Any revision of a key without one, in the named file or among legacy lines. -/
  | anyRevision
  deriving DecidableEq, Repr

namespace Strategy

/-- The order in which strategies are tried. -/
def order : List Strategy := [exact, legacyFilePath, stripRevision, anyRevision]

/-- The name a strategy is reported by. -/
def name : Strategy → String
  | exact => "Exact"
  | legacyFilePath => "LegacyFilePath"
  | stripRevision => "StripRevision"
  | anyRevision => "AnyRevision"

/-- The lookup a strategy builds for a file and a normalized key. Stripping
applies to revisioned keys only, and trying every revision to the others only,
so that a revision is never taken for another one. -/
def lookup? (s : Strategy) (file key : String) : Option Lookup :=
  match s with
  | exact => some ⟨.exact key, .exact file⟩
  | legacyFilePath => some ⟨.exact key, .legacy⟩
  | stripRevision => (Key.splitRevision key).map fun p => ⟨.exact p.1, .exactOrLegacy file⟩
  | anyRevision =>
    if Key.isRevisioned key then none else some ⟨.anyRevisionOf key, .exactOrLegacy file⟩

theorem mem_order (s : Strategy) : s ∈ order := by cases s <;> decide

end Strategy

@[simp] theorem KeyPattern.accepts_exact_iff {key stored : String} :
    (KeyPattern.exact key).accepts stored = true ↔ stored = key := by
  simp [accepts]

/-- The keys accepted for a base are the base, a colon and a revision. -/
theorem KeyPattern.accepts_anyRevisionOf_iff {base stored : String} :
    (anyRevisionOf base).accepts stored = true ↔
      ∃ revision, Key.splitRevision stored = some (base, revision) := by
  rw [accepts]
  split
  · next b r h =>
    rw [h, beq_iff_eq]
    exact ⟨fun hb => ⟨r, by rw [hb]⟩, fun ⟨_, hr⟩ => (Prod.mk.inj (Option.some.inj hr)).1⟩
  · next h => simp [h]

end LocalizationMemory
