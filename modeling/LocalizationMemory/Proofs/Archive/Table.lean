import Mathlib.Data.List.Nodup
import LocalizationMemory.Archive.Table

/-!
# Tables whose rows can be told apart

A table is *numbered* if its rows stand in the order of their ids and the counter has
passed all of them, so that no id is given out twice. It is *unique* in a key if no two
rows share one; an insert keeps it so by what it lets stand in its way. It *refers* to
another table if every id that its rows name is there.

## Main definitions

* `Table.Numbered` — the ids ascend, from one to the counter
* `Table.Unique` — no two rows share a key
* `Table.Refers` — what the rows of one table refer to is in another

## Main results

* `Table.Numbered.addUnless`, `Table.Numbered.upsert`, `Table.Numbered.updateWhere` —
  no change of a table gives an id out twice
* `Table.Unique.addUnless`, `Table.Unique.upsert`, `Table.Unique.updateWhere` — nor
  makes it two rows of one key
* `Table.Unique.find?_eq_some_iff` — looking a key up finds the one row that has it
-/

namespace LocalizationMemory.Table

variable {ρ σ κ : Type} {t : Table ρ} {inTheWay : ρ → Bool} {change : ρ → ρ} {row : RowId → ρ}

/-- The rows stand in the order of their ids, which lie between one and the counter. -/
structure Numbered (id : ρ → RowId) (t : Table ρ) : Prop where
  nonneg : 0 ≤ t.lastId
  ascending : t.rows.Pairwise fun r s => id r < id s
  counted : ∀ r ∈ t.rows, 0 < id r ∧ id r ≤ t.lastId

/-- No two rows share a key. -/
def Unique (key : ρ → κ) (t : Table ρ) : Prop := (t.rows.map key).Nodup

theorem lastId_lt_nextId (t : Table ρ) : t.lastId < t.nextId := Int.lt_succ t.lastId

/-- Every id that the rows of a table name by `ref` is that of a row of another. -/
def Refers (ref : ρ → RowId) (t : Table ρ) (id : σ → RowId) (u : Table σ) : Prop :=
  ∀ r ∈ t.rows, ref r ∈ u.rows.map id

/-! ### The rows after a change -/

theorem mem_rows_add {r : ρ} : r ∈ (t.add row).rows ↔ r ∈ t.rows ∨ r = row t.nextId := by
  simp [add]

theorem mem_rows_addUnless {r : ρ} (hr : r ∈ (t.addUnless inTheWay row).rows) :
    r ∈ t.rows ∨ r = row t.nextId := by
  rw [rows_addUnless] at hr
  split at hr
  · exact .inl hr
  · simpa using hr

theorem mem_rows_upsert {r : ρ} (hr : r ∈ (t.upsert inTheWay change row).rows) :
    (∃ s ∈ t.rows, r = s ∨ inTheWay s = true ∧ r = change s) ∨ r = row t.nextId := by
  rw [rows_upsert] at hr
  split at hr
  · obtain ⟨s, hs, rfl⟩ := List.mem_map.mp hr
    refine .inl ⟨s, hs, ?_⟩
    -- Only a row that was in the way has changed.
    split
    · next h => exact .inr ⟨h, rfl⟩
    · exact .inl rfl
  · rcases List.mem_append.mp hr with hr | hr
    · exact .inl ⟨r, hr, .inl rfl⟩
    · exact .inr (List.mem_singleton.mp hr)

theorem mem_rows_updateWhere {condition : ρ → Bool} {r : ρ}
    (hr : r ∈ (t.updateWhere condition change).rows) :
    ∃ s ∈ t.rows, r = s ∨ condition s = true ∧ r = change s := by
  obtain ⟨s, hs, rfl⟩ := List.mem_map.mp hr
  refine ⟨s, hs, ?_⟩
  split
  · next h => exact .inr ⟨h, rfl⟩
  · exact .inl rfl

/-- What no change of a row touches is the same for all rows after it. -/
theorem map_rows_updateWhere {condition : ρ → Bool} {key : ρ → κ}
    (keeps : ∀ r, key (change r) = key r) :
    (t.updateWhere condition change).rows.map key = t.rows.map key := by
  simp only [updateWhere, List.map_map]
  apply List.map_congr_left
  intro r _
  simp only [Function.comp_apply]
  split
  · exact keeps r
  · rfl

/-- Rows stay where they are when one is added. -/
theorem prefix_rows_add : t.rows <+: (t.add row).rows := List.prefix_append _ _

theorem prefix_rows_addUnless : t.rows <+: (t.addUnless inTheWay row).rows := by
  rw [Table.addUnless]
  split
  · exact List.prefix_rfl
  · exact prefix_rows_add

/-- What no change of a row touches stays where it is. -/
theorem prefix_map_rows_updateWhere {condition : ρ → Bool} {key : ρ → κ}
    (keeps : ∀ r, key (change r) = key r) :
    t.rows.map key <+: (t.updateWhere condition change).rows.map key := by
  have same : (t.updateWhere condition change).rows.map key = t.rows.map key :=
    map_rows_updateWhere keeps
  exact same ▸ List.prefix_rfl

theorem prefix_map_rows_upsert {key : ρ → κ} (keeps : ∀ r, key (change r) = key r) :
    t.rows.map key <+: (t.upsert inTheWay change row).rows.map key := by
  rw [Table.upsert]
  split
  · exact prefix_map_rows_updateWhere keeps
  · exact prefix_rows_add.map key

/-! ### Numbered tables -/

namespace Numbered

variable {id : ρ → RowId}

theorem empty : Numbered id {} :=
  ⟨Int.le_refl 0, .nil, by simp⟩

theorem burn (h : Numbered id t) : Numbered id t.burn where
  nonneg := Int.le_trans h.nonneg (Int.le_of_lt t.lastId_lt_nextId)
  ascending := h.ascending
  counted r hr := by
    obtain ⟨positive, counted⟩ := h.counted r hr
    exact ⟨positive, Int.le_trans counted (Int.le_of_lt t.lastId_lt_nextId)⟩

/-- The counter has passed every row, so the next id is new. -/
theorem lt_nextId (h : Numbered id t) {r : ρ} (hr : r ∈ t.rows) : id r < t.nextId :=
  Int.lt_of_le_of_lt (h.counted r hr).2 t.lastId_lt_nextId

theorem add (h : Numbered id t) (own : ∀ n, id (row n) = n) : Numbered id (t.add row) where
  nonneg := h.burn.nonneg
  ascending := by
    refine List.pairwise_append.mpr ⟨h.ascending, List.pairwise_singleton _ _, ?_⟩
    intro r hr s hs
    rw [List.mem_singleton.mp hs, own]
    exact h.lt_nextId hr
  counted r hr := by
    rcases mem_rows_add.mp hr with hr | rfl
    · exact h.burn.counted r hr
    · rw [own]
      exact ⟨Int.lt_of_le_of_lt h.nonneg t.lastId_lt_nextId, Int.le_refl _⟩

/-- An insert, ignored or not, uses up an id and gives none out twice. -/
theorem addUnless (h : Numbered id t) (own : ∀ n, id (row n) = n) :
    Numbered id (t.addUnless inTheWay row) := by
  rw [Table.addUnless]
  split
  · exact h.burn
  · exact h.add own

/-- A change that keeps the ids of rows keeps their numbering. -/
theorem updateWhere {condition : ρ → Bool} (h : Numbered id t)
    (keeps : ∀ r, id (change r) = id r) : Numbered id (t.updateWhere condition change) where
  nonneg := h.nonneg
  ascending := by
    -- The order is one of the ids alone, and no change touches them.
    have ascending := List.pairwise_map.mpr h.ascending
    rw [← map_rows_updateWhere keeps] at ascending
    exact List.pairwise_map.mp ascending
  counted r hr := by
    obtain ⟨s, hs, rfl | ⟨-, rfl⟩⟩ := mem_rows_updateWhere hr
    · exact h.counted r hs
    · rw [keeps]
      exact h.counted s hs

/-- An insert that ends as an update keeps the ids of rows. -/
theorem upsert (h : Numbered id t) (keeps : ∀ r, id (change r) = id r)
    (own : ∀ n, id (row n) = n) : Numbered id (t.upsert inTheWay change row) := by
  rw [Table.upsert]
  split
  · -- The id that the insert would have taken is used up by the update.
    exact (h.updateWhere keeps).burn
  · exact h.add own

/-- The ids of a numbered table tell its rows apart. -/
theorem unique (h : Numbered id t) : Unique id t :=
  List.pairwise_map.mpr (h.ascending.imp Int.ne_of_lt)

end Numbered

/-! ### Tables that are unique in a key -/

namespace Unique

variable {key : ρ → κ}

theorem empty : Unique key {} := List.nodup_nil

/-- Rows of one key are one row. -/
theorem eq_of_key_eq (h : Unique key t) {r s : ρ} (hr : r ∈ t.rows) (hs : s ∈ t.rows)
    (same : key r = key s) : r = s :=
  List.inj_on_of_nodup_map h hr hs same

theorem add (h : Unique key t) (fresh : ∀ r ∈ t.rows, key r ≠ key (row t.nextId)) :
    Unique key (t.add row) := by
  rw [Unique, Table.add, List.map_append]
  refine List.nodup_append.mpr ⟨h, List.nodup_singleton _, ?_⟩
  intro k hk l hl
  obtain ⟨r, hr, rfl⟩ := List.mem_map.mp hk
  rw [List.mem_singleton.mp hl]
  exact fresh r hr

/-- An insert keeps keys apart if a row of the same key is in its way. -/
theorem addUnless (h : Unique key t)
    (guarded : ∀ r ∈ t.rows, key r = key (row t.nextId) → inTheWay r = true) :
    Unique key (t.addUnless inTheWay row) := by
  rw [Table.addUnless]
  split
  · exact h
  · next none =>
    -- Nothing is in the way, so no row has the key that is added.
    apply h.add
    intro r hr same
    exact none (List.any_eq_true.mpr ⟨r, hr, guarded r hr same⟩)

theorem updateWhere {condition : ρ → Bool} (h : Unique key t)
    (keeps : ∀ r, key (change r) = key r) : Unique key (t.updateWhere condition change) := by
  rw [Unique, map_rows_updateWhere keeps]
  exact h

theorem upsert (h : Unique key t) (keeps : ∀ r, key (change r) = key r)
    (guarded : ∀ r ∈ t.rows, key r = key (row t.nextId) → inTheWay r = true) :
    Unique key (t.upsert inTheWay change row) := by
  rw [Table.upsert]
  split
  · exact h.updateWhere keeps
  · next none =>
    apply h.add
    intro r hr same
    exact none (List.any_eq_true.mpr ⟨r, hr, guarded r hr same⟩)

/-- Looking a key up finds the one row that has it. -/
theorem find?_eq_some_iff [BEq κ] [LawfulBEq κ] (h : Unique key t) {k : κ} {r : ρ} :
    t.rows.find? (key · == k) = some r ↔ r ∈ t.rows ∧ key r = k := by
  constructor
  · intro found
    exact ⟨List.mem_of_find?_eq_some found, by simpa using List.find?_some found⟩
  · rintro ⟨hr, rfl⟩
    cases found : t.rows.find? (key · == key r) with
    | none => exact absurd (beq_self_eq_true (key r)) (List.find?_eq_none.mp found r hr)
    | some s =>
      have same : key s = key r := by simpa using List.find?_some found
      rw [h.eq_of_key_eq (List.mem_of_find?_eq_some found) hr same]

end Unique

/-! ### References -/

namespace Refers

variable {ref : ρ → RowId} {id : σ → RowId} {u : Table σ} {block : σ → Bool} {alter : σ → σ}
  {line : RowId → σ}

theorem empty : Refers ref {} id u := by
  intro r hr
  cases hr

/-- What is referred to stays when rows are added. -/
theorem add_right (h : Refers ref t id u) : Refers ref t id (u.add line) := by
  intro r hr
  simp only [Table.add, List.map_append, List.mem_append]
  exact .inl (h r hr)

theorem addUnless_right (h : Refers ref t id u) : Refers ref t id (u.addUnless block line) := by
  rw [Table.addUnless]
  split
  · exact h
  · exact h.add_right

/-- What is referred to stays when rows change but for their ids. -/
theorem updateWhere_right (h : Refers ref t id u) (keeps : ∀ s, id (alter s) = id s) :
    Refers ref t id (u.updateWhere block alter) := by
  rw [Refers, map_rows_updateWhere keeps]
  exact h

theorem add (h : Refers ref t id u) (present : ref (row t.nextId) ∈ u.rows.map id) :
    Refers ref (t.add row) id u := by
  intro r hr
  rcases mem_rows_add.mp hr with hr | rfl
  · exact h r hr
  · exact present

theorem addUnless (h : Refers ref t id u) (present : ref (row t.nextId) ∈ u.rows.map id) :
    Refers ref (t.addUnless inTheWay row) id u := by
  rw [Table.addUnless]
  split
  · exact h
  · exact h.add present

theorem upsert (h : Refers ref t id u) (keeps : ∀ r, ref (change r) = ref r)
    (present : ref (row t.nextId) ∈ u.rows.map id) :
    Refers ref (t.upsert inTheWay change row) id u := by
  intro r hr
  rcases mem_rows_upsert hr with ⟨s, hs, rfl | ⟨-, rfl⟩⟩ | rfl
  · exact h r hs
  · rw [keeps]
    exact h s hs
  · exact present

end Refers

end LocalizationMemory.Table
