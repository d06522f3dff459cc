/-!
# Dictionaries ordered by their texts

A `Dict β` binds texts to values and lists its bindings by ascending text, in
the order of code points, which is also the order of UTF-8 bytes. Results per
file, counts per language and reports per language are dictionaries, so each of
them is written in one fixed order.

## Main definitions

* `Dict` — a list of bindings with strictly ascending texts
* `Dict.get?` — the value bound to a text
* `Dict.insert` — bind a text, replacing what it was bound to
* `Dict.ofList` — bind one after the other, so that the last binding of a text stays

## Main results

* `Dict.get?_insert` — a text just bound has its value, every other text keeps its own
-/

namespace LocalizationMemory

/-- Bindings of texts to values, by strictly ascending text. -/
structure Dict (β : Type) where
  entries : List (String × β)
  ascending : entries.Pairwise fun a b => a.1 < b.1

namespace Dict

variable {β γ : Type}

/-- Bind `k` to `v` in an ascending list of bindings. -/
def insertEntry (k : String) (v : β) : List (String × β) → List (String × β)
  | [] => [(k, v)]
  | (k', v') :: r =>
    -- The new text goes before the first greater one, or in the place of an equal one.
    if k < k' then (k, v) :: (k', v') :: r
    else if k = k' then (k, v) :: r
    else (k', v') :: insertEntry k v r

theorem fst_of_mem_insertEntry {k : String} {v : β} {l : List (String × β)} {p : String × β}
    (h : p ∈ insertEntry k v l) : p.1 = k ∨ p ∈ l := by
  induction l with
  | nil => simp only [insertEntry, List.mem_singleton] at h; exact .inl (by rw [h])
  | cons q r ih =>
    rw [insertEntry] at h
    split at h
    · rcases List.mem_cons.mp h with rfl | h
      · exact .inl rfl
      · exact .inr h
    · split at h
      · rcases List.mem_cons.mp h with rfl | h
        · exact .inl rfl
        · exact .inr (List.mem_cons_of_mem _ h)
      · rcases List.mem_cons.mp h with rfl | h
        · exact .inr List.mem_cons_self
        · exact (ih h).imp_right (List.mem_cons_of_mem _)

theorem pairwise_insertEntry (k : String) (v : β) {l : List (String × β)}
    (hl : l.Pairwise fun a b => a.1 < b.1) : (insertEntry k v l).Pairwise fun a b => a.1 < b.1 := by
  induction l with
  | nil => exact List.pairwise_singleton _ _
  | cons q r ih =>
    obtain ⟨hq, hr⟩ := List.pairwise_cons.mp hl
    rw [insertEntry]
    split
    · next hlt =>
      refine List.pairwise_cons.mpr ⟨fun p hp => ?_, hl⟩
      rcases List.mem_cons.mp hp with rfl | hp
      · exact hlt
      · exact String.lt_trans hlt (hq p hp)
    · next hnlt =>
      split
      · next heq => exact List.pairwise_cons.mpr ⟨fun p hp => heq ▸ hq p hp, hr⟩
      · next hne =>
        refine List.pairwise_cons.mpr ⟨fun p hp => ?_, ih hr⟩
        rcases fst_of_mem_insertEntry hp with hk | hp
        · rw [hk]
          rcases String.le_total k q.1 with h | h
          · exact absurd (String.le_antisymm h (String.not_lt.mp hnlt)) hne
          · exact Decidable.byContradiction fun hc =>
              hne (String.le_antisymm (String.not_lt.mp hc) h)
        · exact hq p hp

/-- The dictionary with no binding. -/
def empty : Dict β := ⟨[], .nil⟩

instance : EmptyCollection (Dict β) := ⟨empty⟩

instance : Inhabited (Dict β) := ⟨empty⟩

/-- Bind `k` to `v`, in place of what `k` was bound to. -/
def insert (d : Dict β) (k : String) (v : β) : Dict β :=
  ⟨insertEntry k v d.entries, pairwise_insertEntry k v d.ascending⟩

/-- The value bound to a text. -/
def get? (d : Dict β) (k : String) : Option β := (d.entries.find? (·.1 == k)).map (·.2)

/-- Bind the pairs one after the other: the last pair of a text stays. -/
def ofList (l : List (String × β)) : Dict β := l.foldl (fun d p => d.insert p.1 p.2) ∅

/-- The texts that are bound, ascending. -/
def keys (d : Dict β) : List String := d.entries.map (·.1)

/-- The bound values, by ascending text. -/
def values (d : Dict β) : List β := d.entries.map (·.2)

/-- The number of bindings. -/
def size (d : Dict β) : Nat := d.entries.length

/-- Nothing is bound. -/
def isEmpty (d : Dict β) : Bool := d.entries.isEmpty

/-- Change every value. -/
def map (f : β → γ) (d : Dict β) : Dict γ :=
  ⟨d.entries.map fun p => (p.1, f p.2), List.pairwise_map.mpr d.ascending⟩

theorem find?_insertEntry (k : String) (v : β) (l : List (String × β)) (j : String) :
    ((insertEntry k v l).find? (·.1 == j)).map (·.2) =
      if k = j then some v else (l.find? (·.1 == j)).map (·.2) := by
  induction l with
  | nil => by_cases h : k = j <;> simp [insertEntry, h]
  | cons q r ih =>
    rw [insertEntry]
    split
    · by_cases h : k = j <;> simp [h]
    · split
      · next heq => by_cases h : k = j <;> simp [h, ← heq]
      · next hne =>
        by_cases hq : q.1 = j
        · have : k ≠ j := fun h => hne (h.trans hq.symm)
          simp [hq, this]
        · simpa [List.find?_cons, hq] using ih

/-- A text just bound has its value, and every other text keeps its own. -/
theorem get?_insert (d : Dict β) (k : String) (v : β) (j : String) :
    (d.insert k v).get? j = if k = j then some v else d.get? j :=
  find?_insertEntry k v d.entries j

@[simp] theorem get?_empty (k : String) : (∅ : Dict β).get? k = none := rfl

end Dict

end LocalizationMemory
