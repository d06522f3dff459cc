import LocalizationMemory.Key.Lookup

/-!
# An index of keys in memory

Rendering files found on disk name keys but not files. An index holds the keys
of the source files, each with its file and its place there, and finds a key by
the same strategies as the archive does, with conditions on the key alone.

## Main definitions

* `KeyIndex` — the indexed keys, in the order of insertion
* `KeyIndex.insert` — add a key under its normalized form
* `KeyIndex.resolve?` — the file and the place of the first key found
-/

namespace LocalizationMemory

/-- One indexed key: its normalized form, its file and its place in the file. -/
structure IndexedKey where
  key : String
  file : String
  position : Nat
  deriving DecidableEq, Repr

/-- Indexed keys, in the order of insertion. -/
structure KeyIndex where
  entries : List IndexedKey := []
  deriving DecidableEq, Repr

namespace KeyIndex

/-- Add a key, under its normalized form. -/
def insert (index : KeyIndex) (key file : String) (position : Nat) : KeyIndex :=
  ⟨index.entries ++ [⟨Key.normalize key, file, position⟩]⟩

/-- The number of indexed keys. -/
def size (index : KeyIndex) : Nat := index.entries.length

/-- Nothing is indexed. -/
def isEmpty (index : KeyIndex) : Bool := index.entries.isEmpty

/-- The strategies that look at the key alone. -/
def strategies : List Strategy := Strategy.order.filter (· ≠ .legacyFilePath)

/-- The first indexed key that meets a pattern. -/
def find? (index : KeyIndex) (pattern : KeyPattern) : Option IndexedKey :=
  index.entries.find? (pattern.accepts ·.key)

/-- The file and the place of a key: the first entry found by the first strategy
that finds one. -/
def resolve? (index : KeyIndex) (rawKey : String) : Option (String × Nat) :=
  let key := Key.normalize rawKey
  -- The name of the file plays no part, since only the pattern of the key is used.
  (strategies.findSome? fun s => (s.lookup? "" key).bind fun l => index.find? l.key).map
    fun e => (e.file, e.position)

@[simp] theorem entries_insert (index : KeyIndex) (key file : String) (position : Nat) :
    (index.insert key file position).entries =
      index.entries ++ [⟨Key.normalize key, file, position⟩] := rfl

theorem strategies_eq : strategies = [.exact, .stripRevision, .anyRevision] := by decide

end KeyIndex

end LocalizationMemory
