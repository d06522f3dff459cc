import Mathlib.Algebra.GroupWithZero.Nat
import Mathlib.Data.List.Nodup
import LocalizationMemory.Text.Dict

/-!
# Dictionaries made of lists

A dictionary that is made of pairs with distinct texts holds these pairs and no others,
in another order.

## Main results

* `Dict.entries_ofList_perm` — the bindings are the pairs
* `Dict.get?_eq_some_iff` — a text has the value it is bound to
* `Dict.get?_ofList_of_mem` — each text has the value it stands with
* `Dict.mem_keys_ofList_iff` — the texts that are bound, distinct before or not
* `Dict.entries_ofList_map` — values can be changed before or after
* `Dict.sum_values_insert` — what a number that is bound adds to the sum
-/

namespace LocalizationMemory.Dict

variable {β γ : Type}

/-- A text has the value it is bound to. -/
theorem get?_eq_some_iff {d : Dict β} {k : String} {v : β} :
    d.get? k = some v ↔ (k, v) ∈ d.entries := by
  rw [get?, Option.map_eq_some_iff]
  constructor
  · rintro ⟨p, found, rfl⟩
    obtain rfl : p.1 = k := by simpa using List.find?_some found
    exact List.mem_of_find?_eq_some found
  · intro mem
    cases found : d.entries.find? (·.1 == k) with
    | none => exact absurd (beq_self_eq_true k) (List.find?_eq_none.mp found _ mem)
    | some p =>
      have same : p.1 = k := by simpa using List.find?_some found
      -- No text is bound twice.
      have distinct : (d.entries.map (·.1)).Nodup :=
        List.pairwise_map.mpr (d.ascending.imp String.ne_of_lt)
      rw [List.inj_on_of_nodup_map distinct (List.mem_of_find?_eq_some found) mem same]
      exact ⟨_, rfl, rfl⟩

theorem insertEntry_perm {k : String} {v : β} {l : List (String × β)}
    (new : k ∉ l.map (·.1)) : (insertEntry k v l).Perm ((k, v) :: l) := by
  induction l with
  | nil => exact .refl _
  | cons p r ih =>
    rw [List.map_cons, List.mem_cons, not_or] at new
    rw [insertEntry]
    split
    · exact .refl _
    · rw [if_neg new.1]
      exact ((ih new.2).cons p).trans (.swap (k, v) p r)

theorem foldl_insert_perm (l : List (String × β)) (d : Dict β)
    (distinct : (d.entries ++ l).Pairwise fun p q => p.1 ≠ q.1) :
    (l.foldl (fun d p => d.insert p.1 p.2) d).entries.Perm (d.entries ++ l) := by
  induction l generalizing d with
  | nil =>
    rw [List.append_nil]
    exact .refl _
  | cons p r ih =>
    obtain ⟨-, -, across⟩ := List.pairwise_append.mp distinct
    have new : p.1 ∉ d.entries.map (·.1) := by
      intro hp
      obtain ⟨q, hq, same⟩ := List.mem_map.mp hp
      exact across q hq p List.mem_cons_self same
    -- A text that is new finds its place among the others, and stays apart from the rest.
    have step : (d.insert p.1 p.2).entries.Perm (p :: d.entries) := insertEntry_perm new
    have moved : ((d.insert p.1 p.2).entries ++ r).Perm (d.entries ++ p :: r) :=
      (step.append_right r).trans List.perm_middle.symm
    have distinct' : ((d.insert p.1 p.2).entries ++ r).Pairwise fun p q => p.1 ≠ q.1 :=
      (moved.pairwise_iff fun h => Ne.symm h).mpr distinct
    exact (ih (d.insert p.1 p.2) distinct').trans moved

/-- A dictionary made of pairs with distinct texts holds these pairs. -/
theorem entries_ofList_perm {l : List (String × β)} (distinct : (l.map (·.1)).Nodup) :
    (ofList l).entries.Perm l :=
  foldl_insert_perm l ∅ (List.pairwise_map.mp distinct)

/-- In a dictionary made of pairs with distinct texts each text has the value that it
stands with. -/
theorem get?_ofList_of_mem {l : List (String × β)} (distinct : (l.map (·.1)).Nodup)
    {p : String × β} (mem : p ∈ l) : (ofList l).get? p.1 = some p.2 := by
  have perm := entries_ofList_perm distinct
  rw [get?]
  cases found : (ofList l).entries.find? (·.1 == p.1) with
  | none =>
    have absent := List.find?_eq_none.mp found p (perm.mem_iff.mpr mem)
    exact absurd (beq_self_eq_true p.1) absent
  | some q =>
    have same : q.1 = p.1 := by simpa using List.find?_some found
    have hq : q ∈ l := perm.mem_iff.mp (List.mem_of_find?_eq_some found)
    rw [List.inj_on_of_nodup_map distinct hq mem same, Option.map_some]

/-! ### The texts that are bound -/

/-- The texts that are bound ascend. -/
theorem pairwise_keys (d : Dict β) : d.keys.Pairwise (· < ·) := List.pairwise_map.mpr d.ascending

theorem mem_keys_iff {d : Dict β} {k : String} : k ∈ d.keys ↔ (d.get? k).isSome = true := by
  rw [Option.isSome_iff_exists, keys, List.mem_map]
  constructor
  · rintro ⟨p, mem, rfl⟩
    exact ⟨p.2, get?_eq_some_iff.mpr mem⟩
  · rintro ⟨v, bound⟩
    exact ⟨(k, v), get?_eq_some_iff.mp bound, rfl⟩

theorem mem_keys_foldl_insert_iff {l : List (String × β)} {d : Dict β} {k : String} :
    k ∈ (l.foldl (fun d p => d.insert p.1 p.2) d).keys ↔ k ∈ d.keys ∨ k ∈ l.map (·.1) := by
  induction l generalizing d with
  | nil => simp
  | cons p r ih =>
    have step : k ∈ (d.insert p.1 p.2).keys ↔ k ∈ d.keys ∨ k = p.1 := by
      rw [mem_keys_iff, mem_keys_iff, get?_insert]
      split
      · next same => simp [same]
      · next differs => simp [Ne.symm differs]
    rw [List.foldl_cons, ih, step, List.map_cons, List.mem_cons, or_assoc]

/-- The texts that are bound in a dictionary made of pairs are those of the pairs. -/
theorem mem_keys_ofList_iff {l : List (String × β)} {k : String} :
    k ∈ (ofList l).keys ↔ k ∈ l.map (·.1) := by
  rw [ofList, mem_keys_foldl_insert_iff]
  exact or_iff_right List.not_mem_nil

theorem insertEntry_map (f : β → γ) (k : String) (v : β) (l : List (String × β)) :
    insertEntry k (f v) (l.map fun p => (p.1, f p.2)) =
      (insertEntry k v l).map fun p => (p.1, f p.2) := by
  induction l with
  | nil => rfl
  | cons p r ih =>
    rw [List.map_cons, insertEntry, insertEntry, ih]
    split
    · rfl
    · split <;> rfl

/-- Values can be changed before or after they are bound. -/
theorem entries_ofList_map (f : β → γ) (l : List (String × β)) :
    (ofList (l.map fun p => (p.1, f p.2))).entries =
      (ofList l).entries.map fun p => (p.1, f p.2) := by
  have fold : ∀ (l : List (String × β)) (d : Dict β) (d' : Dict γ),
      d'.entries = d.entries.map (fun p => (p.1, f p.2)) →
        ((l.map fun p => (p.1, f p.2)).foldl (fun d p => d.insert p.1 p.2) d').entries =
          (l.foldl (fun d p => d.insert p.1 p.2) d).entries.map fun p => (p.1, f p.2) := by
    intro l
    induction l with
    | nil => exact fun _ _ same => same
    | cons p r ih =>
      intro d d' same
      apply ih
      change insertEntry p.1 (f p.2) d'.entries = _
      rw [same, insertEntry_map]
      rfl
  exact fold l ∅ ∅ rfl

/-- A number that is bound takes the place of what its text was bound to in the sum. -/
theorem sum_values_insert (d : Dict Nat) (k : String) (n : Nat) :
    (d.insert k n).values.sum + (d.get? k).getD 0 = d.values.sum + n := by
  obtain ⟨l, ascending⟩ := d
  change ((insertEntry k n l).map (·.2)).sum + ((l.find? (·.1 == k)).map (·.2)).getD 0 =
    (l.map (·.2)).sum + n
  induction l with
  | nil => simp [insertEntry]
  | cons p r ih =>
    obtain ⟨first, ascending⟩ := List.pairwise_cons.mp ascending
    rw [insertEntry]
    split
    · next before =>
      -- The texts that follow come after one that is greater already.
      have absent : (p :: r).find? (·.1 == k) = none := by
        refine List.find?_eq_none.mpr fun q hq same => ?_
        obtain rfl : q.1 = k := by simpa using same
        rcases List.mem_cons.mp hq with rfl | hq
        · exact String.lt_irrefl _ before
        · exact String.lt_irrefl _ (String.lt_trans before (first q hq))
      rw [absent, List.map_cons, List.sum_cons]
      simp [Nat.add_comm]
    · split
      · next same =>
        have found : (p :: r).find? (·.1 == k) = some p :=
          List.find?_cons_of_pos (by simp [same])
        rw [found, List.map_cons, List.map_cons, List.sum_cons, List.sum_cons]
        simp only [Option.map_some, Option.getD_some]
        omega
      · next differs =>
        have others := ih ascending
        rw [List.find?_cons_of_neg (by simpa using Ne.symm differs), List.map_cons, List.map_cons,
          List.sum_cons, List.sum_cons]
        omega

end LocalizationMemory.Dict
