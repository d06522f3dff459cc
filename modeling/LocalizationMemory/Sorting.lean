/-!
# Sorting a list

Sorting by insertion, for any order given as a test. It is stable: elements that
come neither before nor after one another keep their order.

## Main definitions

* `sortBy` — the elements of a list, sorted

## Main results

* `sortBy_perm` — sorting only moves elements
* `pairwise_sortBy` — the result is in order
-/

namespace LocalizationMemory

variable {α : Type}

/-- Put an element before the first one it is not after. -/
def insertBy (le : α → α → Bool) (x : α) : List α → List α
  | [] => [x]
  | y :: r => if le x y then x :: y :: r else y :: insertBy le x r

/-- The elements of a list, sorted. -/
def sortBy (le : α → α → Bool) (l : List α) : List α := l.foldr (insertBy le) []

theorem insertBy_perm (le : α → α → Bool) (x : α) (l : List α) :
    (insertBy le x l).Perm (x :: l) := by
  induction l with
  | nil => exact .refl _
  | cons y r ih =>
    rw [insertBy]
    split
    · exact .refl _
    · exact (ih.cons y).trans (.swap x y r)

/-- Sorting only moves elements. -/
theorem sortBy_perm (le : α → α → Bool) (l : List α) : (sortBy le l).Perm l := by
  induction l with
  | nil => exact .refl _
  | cons x r ih => exact (insertBy_perm le x _).trans (ih.cons x)

theorem pairwise_insertBy {le : α → α → Bool}
    (trans : ∀ a b c, le a b = true → le b c = true → le a c = true)
    (total : ∀ a b, le a b = true ∨ le b a = true) (x : α) {l : List α}
    (hl : l.Pairwise fun a b => le a b = true) :
    (insertBy le x l).Pairwise fun a b => le a b = true := by
  induction l with
  | nil => exact List.pairwise_singleton _ _
  | cons y r ih =>
    obtain ⟨hy, hr⟩ := List.pairwise_cons.mp hl
    rw [insertBy]
    split
    · next h =>
      refine List.pairwise_cons.mpr ⟨fun z hz => ?_, hl⟩
      rcases List.mem_cons.mp hz with rfl | hz
      · exact h
      · exact trans _ _ _ h (hy z hz)
    · next h =>
      refine List.pairwise_cons.mpr ⟨fun z hz => ?_, ih hr⟩
      rcases List.mem_cons.mp ((insertBy_perm le x r).mem_iff.mp hz) with rfl | hz
      · exact (total z y).resolve_left h
      · exact hy z hz

/-- The result is in order, if the test is an order. -/
theorem pairwise_sortBy {le : α → α → Bool}
    (trans : ∀ a b c, le a b = true → le b c = true → le a c = true)
    (total : ∀ a b, le a b = true ∨ le b a = true) (l : List α) :
    (sortBy le l).Pairwise fun a b => le a b = true := by
  induction l with
  | nil => exact .nil
  | cons x r ih => exact pairwise_insertBy trans total x ih

@[simp] theorem mem_sortBy {le : α → α → Bool} {x : α} {l : List α} : x ∈ sortBy le l ↔ x ∈ l :=
  (sortBy_perm le l).mem_iff

end LocalizationMemory
