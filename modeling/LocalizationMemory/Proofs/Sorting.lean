import LocalizationMemory.Sorting

/-!
# The ends of a sorted list

What is read off a sorted list is one of its ends: the first element is the least,
and the last one that meets a condition is the greatest that does. Where the order
tells elements apart, these are characterizations, and the arrangement that a list had
before it was sorted leaves no trace.

## Main results

* `sortBy_map` — sorting by a key is sorting the keys
* `rel_of_find?_of_pairwise`, `find?_eq_some_iff_of_pairwise` — the first element with
  a property is the least that has it
* `head?_sortBy_eq_some_iff`, `find?_reverse_sortBy_eq_some_iff` — the two ends of a
  sorted list
* `sortBy_eq_of_perm` — a list and its rearrangements are sorted alike
-/

namespace LocalizationMemory

variable {α : Type}

theorem map_insertBy {β : Type} (key : α → β) (le : β → β → Bool) (x : α) (l : List α) :
    (insertBy (fun a b => le (key a) (key b)) x l).map key = insertBy le (key x) (l.map key) := by
  induction l with
  | nil => rfl
  | cons y r ih =>
    rw [insertBy, List.map_cons, insertBy]
    split
    · rfl
    · rw [List.map_cons, ih]

/-- Sorting by a key is sorting the keys. -/
theorem sortBy_map {β : Type} (key : α → β) (le : β → β → Bool) (l : List α) :
    (sortBy (fun a b => le (key a) (key b)) l).map key = sortBy le (l.map key) := by
  induction l with
  | nil => rfl
  | cons x r ih =>
    rw [List.map_cons, sortBy, List.foldr_cons, ← sortBy, map_insertBy, ih]
    rfl

/-- A list in order is sorted. -/
theorem sortBy_of_pairwise {le : α → α → Bool} {l : List α}
    (ordered : l.Pairwise fun x y => le x y = true) : sortBy le l = l := by
  induction l with
  | nil => rfl
  | cons x r ih =>
    obtain ⟨first, rest⟩ := List.pairwise_cons.mp ordered
    rw [sortBy, List.foldr_cons, ← sortBy, ih rest]
    cases r with
    | nil => rfl
    | cons y r => rw [insertBy, if_pos (first y List.mem_cons_self)]

/-- In an ordered list no element with a property comes before the first that has it. -/
theorem rel_of_find?_of_pairwise {R : α → α → Prop} {l : List α} {p : α → Bool} {x : α}
    (ordered : l.Pairwise R) (refl : ∀ a, R a a) (found : l.find? p = some x) :
    ∀ y ∈ l, p y = true → R x y := by
  intro y hy hp
  -- What stands before the first element with the property does not have it.
  obtain ⟨-, front, rest, rfl, hfront⟩ := List.find?_eq_some_iff_append.mp found
  rcases List.mem_append.mp hy with hy | hy
  · have := hfront y hy
    simp [hp] at this
  · rcases List.mem_cons.mp hy with rfl | hy
    · exact refl y
    · exact List.rel_of_pairwise_cons (List.pairwise_append.mp ordered).2.1 hy

/-- In an ordered list the first element with a property is the least that has it. -/
theorem find?_eq_some_iff_of_pairwise {R : α → α → Prop} {l : List α} {p : α → Bool} {x : α}
    (ordered : l.Pairwise R) (refl : ∀ a, R a a)
    (antisymm : ∀ a ∈ l, ∀ b ∈ l, R a b → R b a → a = b) :
    l.find? p = some x ↔ x ∈ l ∧ p x = true ∧ ∀ y ∈ l, p y = true → R x y := by
  constructor
  · intro h
    exact ⟨List.mem_of_find?_eq_some h, List.find?_some h, rel_of_find?_of_pairwise ordered refl h⟩
  · rintro ⟨hx, hp, hle⟩
    cases hf : l.find? p with
    | none => exact absurd hp (List.find?_eq_none.mp hf x hx)
    | some z =>
      have hz := List.mem_of_find?_eq_some hf
      rw [antisymm x hx z hz (hle z hz (List.find?_some hf))
        (rel_of_find?_of_pairwise ordered refl hf x hx hp)]

section Order

variable {le : α → α → Bool} (trans : ∀ a b c, le a b = true → le b c = true → le a c = true)
  (total : ∀ a b, le a b = true ∨ le b a = true) {l : List α} {x : α}
  (antisymm : ∀ a ∈ l, ∀ b ∈ l, le a b = true → le b a = true → a = b)

include trans total antisymm

/-- The first element of a sorted list is the least. -/
theorem head?_sortBy_eq_some_iff :
    (sortBy le l).head? = some x ↔ x ∈ l ∧ ∀ y ∈ l, le x y = true := by
  have h := find?_eq_some_iff_of_pairwise (p := fun _ => true) (x := x)
    (pairwise_sortBy trans total l) (fun a => (total a a).elim id id)
    fun a ha b hb => antisymm a (mem_sortBy.mp ha) b (mem_sortBy.mp hb)
  have head : (sortBy le l).find? (fun _ => true) = (sortBy le l).head? := by
    cases sortBy le l <;> rfl
  simpa [head] using h

/-- The last element of a sorted list with a property is the greatest that has it. -/
theorem find?_reverse_sortBy_eq_some_iff {p : α → Bool} :
    (sortBy le l).reverse.find? p = some x ↔
      x ∈ l ∧ p x = true ∧ ∀ y ∈ l, p y = true → le y x = true := by
  have h := find?_eq_some_iff_of_pairwise (p := p) (x := x)
    (List.pairwise_reverse.mpr (pairwise_sortBy trans total l)) (fun a => (total a a).elim id id)
    fun a ha b hb hab hba =>
      antisymm a (mem_sortBy.mp (List.mem_reverse.mp ha)) b (mem_sortBy.mp (List.mem_reverse.mp hb))
        hba hab
  simpa using h

/-- A list and its rearrangements are sorted alike. -/
theorem sortBy_eq_of_perm {l' : List α} (perm : l.Perm l') : sortBy le l = sortBy le l' := by
  have sorted := pairwise_sortBy trans total
  refine List.Perm.eq_of_pairwise (fun x y hx hy => ?_) (sorted l) (sorted l')
    ((sortBy_perm le l).trans (perm.trans (sortBy_perm le l').symm))
  exact antisymm x (mem_sortBy.mp hx) y (perm.mem_iff.mpr (mem_sortBy.mp hy))

end Order

end LocalizationMemory
