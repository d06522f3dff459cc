import LocalizationMemory.Settings.EnvFile

/-!
# What an environment file sets

A file is read statement by statement, and each value may ask for those set before it. What
has been read is a list of assignments, up to the first statement that cannot be read. They
complete the variables: a variable that is set keeps its value, and another one gets the
value that stands first for it. A variable that is to be set cannot have a zero character
in its value.

## Main definitions

* `EnvFile.assignments` — what is read of a file
* `EnvFile.firstValue?` — the value that stands first for a variable
* `EnvFile.GivesUnfit` — a variable is to be set to a value that it cannot have

## Main results

* `EnvFile.get?_foldl_assign` — the variables after assignments
* `EnvFile.run_of_fit`, `EnvFile.run_of_unfit` — how the reading of a file ends
-/

namespace LocalizationMemory.EnvFile

variable {env said : Variables} {a : Assignment} {list : List Assignment} {name : String}

/-! ### Assignments one after the other -/

/-- The value that stands first for a variable. -/
def firstValue? (list : List Assignment) (name : String) : Option String :=
  (list.find? (·.name == name)).map (·.value)

theorem firstValue?_cons :
    firstValue? (a :: list) name = if a.name = name then some a.value else firstValue? list name := by
  rw [firstValue?, List.find?_cons]
  by_cases same : a.name = name
  · simp [same]
  · simp [same, beq_eq_false_iff_ne.mpr same, firstValue?]

/-- An assignment gives a variable its value if it has none. -/
theorem get?_assign :
    (assign env a).get? name = (env.get? name).or (if a.name = name then some a.value else none) := by
  by_cases isSet : (env.get? a.name).isSome
  · rw [assign, if_pos isSet]
    split
    · next same =>
      obtain ⟨value, hv⟩ := Option.isSome_iff_exists.mp isSet
      rw [← same, hv, Option.some_or]
    · exact Option.or_none.symm
  · rw [assign, if_neg isSet, Dict.get?_insert]
    split
    · next same =>
      rw [← same, Option.not_isSome_iff_eq_none.mp isSet, Option.none_or]
    · exact Option.or_none.symm

/-- After assignments a variable has the value that it had, or else the one that stands first
for it. -/
theorem get?_foldl_assign :
    (list.foldl assign env).get? name = (env.get? name).or (firstValue? list name) := by
  induction list generalizing env with
  | nil => exact Option.or_none.symm
  | cons a r ih =>
    rw [List.foldl_cons, ih, get?_assign, firstValue?_cons, Option.or_assoc]
    split
    · rw [Option.some_or]
    · rw [Option.none_or]

/-- Of a list of assignments, one that counts sets a variable to a value that none can have. -/
def GivesUnfit (env : Variables) (list : List Assignment) : Prop :=
  ∃ name value, env.get? name = none ∧ firstValue? list name = some value ∧ isUnfit value = true

theorem not_givesUnfit_nil : ¬ GivesUnfit env [] := by
  rintro ⟨_, _, _, first, _⟩
  cases first

/-- Either the first assignment is the unfit one, or another one is after it. -/
theorem givesUnfit_cons_iff : GivesUnfit env (a :: list) ↔
    env.get? a.name = none ∧ isUnfit a.value = true ∨ GivesUnfit (assign env a) list := by
  constructor
  · rintro ⟨name, value, unset, first, unfit⟩
    rw [firstValue?_cons] at first
    split at first
    · next same =>
      cases first
      exact .inl ⟨same ▸ unset, unfit⟩
    · next differs =>
      refine .inr ⟨name, value, ?_, first, unfit⟩
      rw [get?_assign, unset, if_neg differs, Option.none_or]
  · rintro (⟨unset, unfit⟩ | ⟨name, value, unset, first, unfit⟩)
    · exact ⟨a.name, a.value, unset, by rw [firstValue?_cons, if_pos rfl], unfit⟩
    · -- What is unset after the first assignment is another variable.
      rw [get?_assign, Option.or_eq_none_iff] at unset
      have differs : a.name ≠ name := by
        intro same
        rw [if_pos same] at unset
        cases unset.2
      exact ⟨name, value, unset.1, by rw [firstValue?_cons, if_neg differs, first], unfit⟩

/-! ### Reading -/

/-- The assignments that are read of statements: all up to the first statement that cannot be
read. What was set or said before is what later values may ask for. -/
def assignments (env said : Variables) : List Statement → List Assignment
  | [] => []
  | .broken :: _ => []
  | .text cs :: r =>
    match meaning (valueFor env said) cs with
    | .nothing => assignments env said r
    | .unreadable => []
    | .assigns a => a :: assignments (assign env a) (said.insert a.name a.value) r

/-- Statements without an unfit value complete the variables. -/
theorem run_of_fit {statements : List Statement}
    (fit : ¬ GivesUnfit env (assignments env said statements)) :
    run env said statements = .ok ((assignments env said statements).foldl assign env) := by
  induction statements generalizing env said with
  | nil => rfl
  | cons s r ih =>
    cases s with
    | broken => rfl
    | text cs =>
      rw [assignments] at fit ⊢
      rw [run]
      cases told : meaning (valueFor env said) cs with
      | nothing =>
        rw [told] at fit
        exact ih fit
      | unreadable => rfl
      | assigns a =>
        rw [told, givesUnfit_cons_iff, not_or] at fit
        have goesOn : ¬ ((env.get? a.name).isNone && isUnfit a.value) = true := by
          simpa [Option.isNone_iff_eq_none] using fit.1
        exact (if_neg goesOn).trans (ih fit.2)

/-- An unfit value ends all. -/
theorem run_of_unfit {statements : List Statement}
    (unfit : GivesUnfit env (assignments env said statements)) :
    run env said statements = .error .crash := by
  induction statements generalizing env said with
  | nil => exact absurd unfit not_givesUnfit_nil
  | cons s r ih =>
    cases s with
    | broken => exact absurd unfit not_givesUnfit_nil
    | text cs =>
      rw [assignments] at unfit
      rw [run]
      cases told : meaning (valueFor env said) cs with
      | nothing =>
        rw [told] at unfit
        exact ih unfit
      | unreadable =>
        rw [told] at unfit
        exact absurd unfit not_givesUnfit_nil
      | assigns a =>
        rw [told, givesUnfit_cons_iff] at unfit
        rcases unfit with ⟨unset, unfit⟩ | later
        · have ends : ((env.get? a.name).isNone && isUnfit a.value) = true := by
            rw [unset, unfit]
            rfl
          exact if_pos ends
        · simp only [ih later, ite_self]

end LocalizationMemory.EnvFile
