/-!
# Tables with a counter for ids

A table holds its rows in the order of their ids and counts the ids it has given
out. The counter never goes back while a write succeeds: an insert that is
ignored, or that ends as an update, still uses up the next id.

## Main definitions

* `Table` — rows and a counter
* `Table.add` — append a row under the next id
* `Table.burn` — use up the next id
* `Table.addUnless` — append a row unless one is in the way
* `Table.upsert` — change the row that is in the way, or append one

## Main results

* `Table.rows_addUnless`, `Table.lastId_addUnless`, `Table.rows_upsert`,
  `Table.lastId_upsert` — what these do to the rows and to the counter
-/

namespace LocalizationMemory

/-- The id of a row. -/
abbrev RowId := Int

/-- Milliseconds since the epoch. -/
abbrev Millis := Int

/-- Rows in the order of their ids, with the last id given out. -/
structure Table (ρ : Type) where
  rows : List ρ := []
  lastId : RowId := 0
  deriving DecidableEq, Repr

namespace Table

variable {ρ : Type}

/-- The id of the next row. -/
def nextId (t : Table ρ) : RowId := t.lastId + 1

/-- Use up the next id. -/
def burn (t : Table ρ) : Table ρ := { t with lastId := t.nextId }

/-- Append a row under the next id. -/
def add (t : Table ρ) (row : RowId → ρ) : Table ρ := ⟨t.rows ++ [row t.nextId], t.nextId⟩

/-- Append a row under the next id, unless a row is in the way. -/
def addUnless (t : Table ρ) (inTheWay : ρ → Bool) (row : RowId → ρ) : Table ρ :=
  if t.rows.any inTheWay then t.burn else t.add row

/-- Change the rows that are in the way, or append one if there are none. -/
def upsert (t : Table ρ) (inTheWay : ρ → Bool) (change : ρ → ρ) (row : RowId → ρ) : Table ρ :=
  if t.rows.any inTheWay then
    ⟨t.rows.map fun r => if inTheWay r then change r else r, t.nextId⟩
  else t.add row

/-- Change every row that meets a condition. -/
def updateWhere (t : Table ρ) (condition : ρ → Bool) (change : ρ → ρ) : Table ρ :=
  { t with rows := t.rows.map fun r => if condition r then change r else r }

@[simp] theorem lastId_addUnless (t : Table ρ) (inTheWay : ρ → Bool) (row : RowId → ρ) :
    (t.addUnless inTheWay row).lastId = t.nextId := by
  unfold addUnless
  split <;> rfl

theorem rows_addUnless (t : Table ρ) (inTheWay : ρ → Bool) (row : RowId → ρ) :
    (t.addUnless inTheWay row).rows =
      if t.rows.any inTheWay then t.rows else t.rows ++ [row t.nextId] := by
  unfold addUnless
  split <;> rfl

@[simp] theorem lastId_upsert (t : Table ρ) (inTheWay : ρ → Bool) (change : ρ → ρ)
    (row : RowId → ρ) : (t.upsert inTheWay change row).lastId = t.nextId := by
  unfold upsert
  split <;> rfl

theorem rows_upsert (t : Table ρ) (inTheWay : ρ → Bool) (change : ρ → ρ) (row : RowId → ρ) :
    (t.upsert inTheWay change row).rows =
      if t.rows.any inTheWay then t.rows.map fun r => if inTheWay r then change r else r
      else t.rows ++ [row t.nextId] := by
  unfold upsert
  split <;> rfl

end Table

end LocalizationMemory
