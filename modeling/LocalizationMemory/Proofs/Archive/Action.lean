import LocalizationMemory.Archive.Action

/-!
# How actions end

Three views of an action carry the theory. It *ends* with a result and an archive, or
it *fails* and leaves one; a chain of actions does either exactly as its parts do one
after the other, so that what an operation went through can be read off it. And it
*moves* an archive along a relation, whichever it does: a failure may come after a part
that was kept.

## Main definitions

* `Access.CanWrite`, `Access.Hinders` — a change can take place, or fails for lack of the
  right to write or of a time
* `Action.Ends` — the action ends with a result and leaves an archive
* `Action.Fails` — the action fails and leaves an archive
* `Action.Moves` — whatever happens, the archive left is related to the one before
* `Action.Reads` — whatever happens, the archive is left as it was

## Main results

* `Action.ends_bind_iff` — how a chain of actions ends
* `Action.ends_write_change_iff` — what it takes for a change to take place
* `Action.fails_bind_iff`, `Action.fails_write_iff`, `Action.fails_write_change` — how a
  chain, a write and a change fail
* `Action.Moves.bind`, `Action.moves_write_change` — chains and changes move along a
  relation if their parts do
-/

namespace LocalizationMemory

/-- A change takes place when the clock can be told, the tables are there and nothing
stands in its way. -/
theorem Access.change_eq_ok_iff {α : Type} {access : Access} {table : TableName}
    {f : Millis → Archive → Except DatabaseFault (α × Archive)} {a : Archive}
    {p : α × Archive} :
    access.change table f a = .ok p ↔
      access.now ≤ latestTime ∧ a.layout.hasTables = true ∧ access.obstacle = none ∧
        f access.now a = .ok p := by
  rw [change]
  split
  · next late => simp [Int.not_le.mpr late]
  · next early =>
    split
    · next tables =>
      cases ho : access.obstacle with
      | some obstacle => simp [permission, ho]
      | none =>
        have early := Int.not_lt.mp early
        have permitted : access.permission = .ok () := by simp [permission, ho]
        rw [permitted]
        cases hf : f access.now a with
        | ok q =>
          change Except.ok q = .ok p ↔ _
          simp [early, tables]
        | error fault =>
          change Except.error _ = .ok p ↔ _
          simp
    · next tables => simp [tables]

namespace Access

variable {access : Access} {failure : Failure}

/-- The clock can be told and the right to write can be had. -/
def CanWrite (access : Access) : Prop := access.now ≤ latestTime ∧ access.obstacle = none

/-- A change fails because the clock cannot be told or the right to write cannot be had. -/
def Hinders (access : Access) (failure : Failure) : Prop :=
  (∃ obstacle, access.obstacle = some obstacle ∧ failure = .database obstacle.cause) ∨
    latestTime < access.now ∧ failure = .crashUnderLock

theorem CanWrite.not_hinders (free : access.CanWrite) : ¬ access.Hinders failure := by
  rintro (⟨obstacle, held, -⟩ | ⟨late, -⟩)
  · cases free.2.symm.trans held
  · exact absurd late (Int.not_lt.mpr free.1)

/-- A change of tables that are there is hindered or fails by itself. -/
theorem hinders_of_change {α : Type} {table : TableName}
    {f : Millis → Archive → Except DatabaseFault (α × Archive)} {a : Archive}
    (tables : a.layout.hasTables = true) (h : access.change table f a = .error failure) :
    access.Hinders failure ∨ ∃ fault, f access.now a = .error fault ∧ failure = .database fault := by
  rw [change, if_pos tables] at h
  split at h
  · next late => exact .inl (.inr ⟨late, (Except.error.inj h).symm⟩)
  · cases ho : access.obstacle with
    | some obstacle =>
      have cause : Failure.database obstacle.cause = failure := by simpa [permission, ho] using h
      exact .inl (.inl ⟨obstacle, ho, cause.symm⟩)
    | none =>
      have permitted : access.permission = .ok () := by simp [permission, ho]
      rw [permitted] at h
      change (f access.now a).mapError .database = .error failure at h
      cases hf : f access.now a with
      | ok p =>
        rw [hf] at h
        cases h
      | error fault =>
        rw [hf] at h
        cases h
        exact .inr ⟨fault, rfl, rfl⟩

end Access

namespace Action

variable {α β : Type} {access : Access} {a b : Archive}

/-- The action ends with a result and leaves an archive. -/
def Ends (act : Action α) (access : Access) (a : Archive) (x : α) (b : Archive) : Prop :=
  (act access a).result = .ok x ∧ (act access a).archive = b

/-- An action ends in one way at most. -/
theorem Ends.unique {act : Action α} {x y : α} {c : Archive} (h : act.Ends access a x b)
    (h' : act.Ends access a y c) : x = y ∧ b = c :=
  ⟨Except.ok.inj (h.1.symm.trans h'.1), h.2.symm.trans h'.2⟩

/-- An action that succeeds ends in some way. -/
theorem exists_ends_of_isOk {act : Action α} (h : (act access a).result.isOk = true) :
    ∃ x, act.Ends access a x (act access a).archive := by
  cases result : (act access a).result with
  | ok x => exact ⟨x, result, rfl⟩
  | error failure =>
    rw [result] at h
    cases h

@[simp] theorem ends_pure_iff {x y : α} :
    (pure x : Action α).Ends access a y b ↔ y = x ∧ b = a := by
  simp [Ends, eq_comm]

/-- A chain of actions ends as its parts do one after the other. -/
@[simp] theorem ends_bind_iff {first : Action α} {second : α → Action β} {y : β} :
    (first >>= second).Ends access a y b ↔
      ∃ x c, first.Ends access a x c ∧ (second x).Ends access c y b := by
  rcases hf : first access a with ⟨result, c, events, trace⟩
  cases result with
  | error failure => simp [Ends, run_bind_of_error hf, hf]
  | ok x =>
    have hx : first.Ends access a x c := by simp [Ends, hf]
    simp only [Ends, run_bind_of_ok hf]
    constructor
    · exact fun hs => ⟨x, c, hx, hs⟩
    · rintro ⟨x', c', hx', hs⟩
      obtain ⟨rfl, rfl⟩ := hx.unique hx'
      exact hs

@[simp] theorem ends_report_iff {event : Event} {u : Unit} :
    (report event).Ends access a u b ↔ b = a := by
  simp [Ends, report, eq_comm]

@[simp] theorem ends_reportAll_iff {events : List Event} {u : Unit} :
    (reportAll events).Ends access a u b ↔ b = a := by
  simp [Ends, reportAll, eq_comm]

@[simp] theorem not_ends_fail {failure : Failure} {x : α} :
    ¬ (fail failure : Action α).Ends access a x b := by
  simp [Ends, fail]

@[simp] theorem not_ends_failWith {fault : Fault} {x : α} :
    ¬ (failWith fault : Action α).Ends access a x b := not_ends_fail

@[simp] theorem ends_read_iff {table : TableName} {f : Archive → α} {x : α} :
    (read table f).Ends access a x b ↔ a.layout.hasTables = true ∧ x = f a ∧ b = a := by
  unfold Ends read inspect
  cases h : a.layout.hasTables with
  | false => simp [h]
  | true => simp [h, eq_comm (a := x), eq_comm (a := b)]

@[simp] theorem ends_readFiles_iff {table : TableName} {f : Archive → α} {x : α} :
    (readFiles table f).Ends access a x b ↔ a.layout.hasFilePaths = true ∧ x = f a ∧ b = a := by
  unfold Ends readFiles inspect
  cases h : a.layout.hasFilePaths with
  | false => cases t : a.layout.hasTables <;> simp [h, t]
  | true => simp [h, eq_comm (a := x), eq_comm (a := b)]

@[simp] theorem ends_readFilesBy_iff {first : Query} {queries : Archive → List Query}
    {table : TableName} {f : Archive → α} {x : α} :
    (readFilesBy first queries table f).Ends access a x b ↔
      a.layout.hasFilePaths = true ∧ x = f a ∧ b = a := by
  unfold Ends readFilesBy
  cases h : a.layout.hasFilePaths with
  | false => simp
  | true => simp [eq_comm (a := x), eq_comm (a := b)]

theorem ends_write_iff {f : Access → Archive → Except Failure (α × Archive)} {x : α} :
    (write f).Ends access a x b ↔ access.obstacle ≠ some .held ∧ f access a = .ok (x, b) := by
  unfold Ends write
  split
  · next held => simp [held]
  · next held =>
    cases h : f access a with
    | error failure => simp
    | ok p => simp [held, Prod.ext_iff]

/-- What it takes for a change to take place. -/
@[simp] theorem ends_write_change_iff {table : TableName}
    {f : Millis → Archive → Except DatabaseFault (α × Archive)} {x : α} :
    (write (·.change table f)).Ends access a x b ↔
      access.now ≤ Access.latestTime ∧ a.layout.hasTables = true ∧ access.obstacle = none ∧
        f access.now a = .ok (x, b) := by
  rw [ends_write_iff, Access.change_eq_ok_iff]
  constructor
  · exact fun h => h.2
  · intro h
    exact ⟨by simp [h.2.2.1], h⟩

/-! ### How actions fail -/

/-- The action fails and leaves an archive. -/
def Fails (act : Action α) (access : Access) (a : Archive) (failure : Failure) (b : Archive) :
    Prop :=
  (act access a).result = .error failure ∧ (act access a).archive = b

variable {failure : Failure}

/-- An action ends or fails. -/
theorem Ends.not_fails {act : Action α} {x : α} {c : Archive} (ends : act.Ends access a x b) :
    ¬ act.Fails access a failure c := by
  rintro ⟨failed, -⟩
  cases ends.1.symm.trans failed

@[simp] theorem not_fails_pure {x : α} : ¬ (pure x : Action α).Fails access a failure b := by
  simp [Fails]

@[simp] theorem not_fails_report {event : Event} :
    ¬ (report event).Fails access a failure b := by
  simp [Fails, report]

@[simp] theorem not_fails_reportAll {events : List Event} :
    ¬ (reportAll events).Fails access a failure b := by
  simp [Fails, reportAll]

@[simp] theorem fails_fail_iff {cause : Failure} :
    (fail cause : Action α).Fails access a failure b ↔ failure = cause ∧ b = a := by
  simp [Fails, fail, eq_comm]

/-- A chain of actions fails in its first part, or where its second part goes on from it. -/
theorem fails_bind_iff {first : Action α} {second : α → Action β} :
    (first >>= second).Fails access a failure b ↔ first.Fails access a failure b ∨
      ∃ x c, first.Ends access a x c ∧ (second x).Fails access c failure b := by
  rcases hf : first access a with ⟨result, c, events, trace⟩
  cases result with
  | error cause => simp [Fails, Ends, run_bind_of_error hf, hf]
  | ok x =>
    have hx : first.Ends access a x c := by simp [Ends, hf]
    have not_failed : ¬ first.Fails access a failure b := hx.not_fails
    simp only [not_failed, false_or]
    simp only [Fails, run_bind_of_ok hf]
    constructor
    · exact fun hs => ⟨x, c, hx, hs⟩
    · rintro ⟨x', c', hx', hs⟩
      obtain ⟨rfl, rfl⟩ := hx.unique hx'
      exact hs

@[simp] theorem fails_read_iff {table : TableName} {f : Archive → α} :
    (read table f).Fails access a failure b ↔ a.layout.hasTables = false ∧
      failure = .database (.noSuchTable table) ∧ b = a := by
  unfold Fails read inspect
  cases h : a.layout.hasTables with
  | false => simp [h, eq_comm (a := failure), eq_comm (a := b)]
  | true => simp [h]

theorem fails_write_iff {f : Access → Archive → Except Failure (α × Archive)} :
    (write f).Fails access a failure b ↔ b = a ∧
      (access.obstacle = some .held ∧ failure = .database .locked ∨
        access.obstacle ≠ some .held ∧ f access a = .error failure) := by
  unfold Fails write
  split
  · next held => simp [held, eq_comm (a := failure), eq_comm (a := b), and_comm]
  · next held =>
    cases h : f access a with
    | error cause => simp [held, eq_comm (a := b), and_comm]
    | ok p => simp [held]

/-- A change of tables that are there fails as a whole, because it is hindered or by itself. -/
theorem fails_write_change {table : TableName}
    {f : Millis → Archive → Except DatabaseFault (α × Archive)} (tables : a.layout.hasTables = true)
    (fails : (write (·.change table f)).Fails access a failure b) :
    b = a ∧ (access.Hinders failure ∨
      ∃ fault, f access.now a = .error fault ∧ failure = .database fault) := by
  obtain ⟨rfl, ⟨held, cause⟩ | ⟨-, h⟩⟩ := fails_write_iff.mp fails
  · exact ⟨rfl, .inl (.inl ⟨.held, held, cause⟩)⟩
  · exact ⟨rfl, Access.hinders_of_change tables h⟩

/-! ### What is left in any case -/

/-- What is left where an action ends and where it fails is left in any case. -/
theorem archive_of_cases {P : Archive → Prop} {act : Action α}
    (fails : ∀ failure b, act.Fails access a failure b → P b)
    (ends : ∀ x b, act.Ends access a x b → P b) : P (act access a).archive := by
  cases result : (act access a).result with
  | ok x => exact ends x _ ⟨result, rfl⟩
  | error failure => exact fails failure _ ⟨result, rfl⟩

/-- A chain of actions leaves what its first part leaves if that fails, and else what its second
part does. -/
theorem archive_bind {P : Archive → Prop} {first : Action α} {second : α → Action β}
    (fails : ∀ failure b, first.Fails access a failure b → P b)
    (ends : ∀ x b, first.Ends access a x b → P (second x access b).archive) :
    P ((first >>= second) access a).archive := by
  rcases hf : first access a with ⟨result, c, events, trace⟩
  cases result with
  | ok x =>
    rw [run_bind_of_ok hf]
    exact ends x c (by simp [Ends, hf])
  | error failure =>
    rw [run_bind_of_error hf]
    exact fails failure c (by simp [Fails, hf])

/-- A chain leaves what was there if its first part fails without a trace, and else what its second
part does. -/
theorem archive_bind_of_untouched {P : Archive → Prop} {first : Action α} {second : α → Action β}
    (start : P a) (untouched : ∀ failure b, first.Fails access a failure b → b = a)
    (ends : ∀ x b, first.Ends access a x b → P (second x access b).archive) :
    P ((first >>= second) access a).archive := by
  refine archive_bind (fun failure b fails => ?_) ends
  rw [untouched failure b fails]
  exact start

/-! ### Moving along a relation -/

/-- Whatever happens, the archive left is related to the one before. -/
def Moves (R : Archive → Archive → Prop) (access : Access) (act : Action α) : Prop :=
  ∀ a, R a (act access a).archive

section Moves

variable {R : Archive → Archive → Prop} (refl : ∀ a, R a a)

include refl

theorem moves_pure (x : α) : Moves R access (pure x : Action α) := refl

theorem moves_report (event : Event) : Moves R access (report event) := refl

theorem moves_reportAll (events : List Event) : Moves R access (reportAll events) := refl

theorem moves_fail (failure : Failure) : Moves R access (fail failure : Action α) := refl

theorem moves_inspect (f : Archive → Except DatabaseFault α) : Moves R access (inspect f) := by
  intro a
  rw [archive_inspect]
  exact refl a

theorem moves_readFilesBy (first : Query) (queries : Archive → List Query) (table : TableName)
    (f : Archive → α) : Moves R access (readFilesBy first queries table f) := by
  intro a
  rw [readFilesBy]
  split <;> exact refl a

/-- A write moves an archive along a relation if its success does. -/
theorem moves_write {f : Access → Archive → Except Failure (α × Archive)}
    (h : ∀ a x b, f access a = .ok (x, b) → R a b) : Moves R access (write f) := by
  intro a
  obtain ⟨x, b, -, hf, hw⟩ | ⟨failure, trace, hw⟩ := write_cases f access a
  · rw [hw]
    exact h a x b hf
  · rw [hw]
    exact refl a

theorem moves_write_change {table : TableName}
    {f : Millis → Archive → Except DatabaseFault (α × Archive)}
    (h : ∀ a x b, f access.now a = .ok (x, b) → R a b) :
    Moves R access (write (·.change table f)) := by
  apply moves_write refl
  intro a x b hc
  exact h a x b (Access.change_eq_ok_iff.mp hc).2.2.2

/-- An alteration moves an archive along a relation if its success does. -/
theorem moves_alter {sound : Archive → Except DatabaseFault Unit}
    {f : Archive → Except DatabaseFault (α × Archive)}
    (h : ∀ a x b, f a = .ok (x, b) → R a b) : Moves R access (alter sound f) := by
  intro a
  rw [alter]
  split
  · next x b hb =>
    cases hs : sound a with
    | error cause => simp [hs, bind, Except.bind] at hb
    | ok u =>
      cases hp : access.permission with
      | error cause => simp [hs, hp, bind, Except.bind] at hb
      | ok v => exact h a x b (by simpa [hs, hp, bind, Except.bind] using hb)
  · exact refl a

end Moves

/-- A chain of actions moves an archive along a relation if its parts do. -/
theorem Moves.bind {R : Archive → Archive → Prop} (trans : ∀ a b c, R a b → R b c → R a c)
    {first : Action α} {second : α → Action β} (hf : Moves R access first)
    (hs : ∀ x, Moves R access (second x)) : Moves R access (first >>= second) := by
  intro a
  -- A failure of the first part leaves what that part has kept.
  have step := hf a
  rcases ha : first access a with ⟨result, c, events, trace⟩
  rw [ha] at step
  cases result with
  | error failure =>
    rw [run_bind_of_error ha]
    exact step
  | ok x =>
    rw [run_bind_of_ok ha]
    exact trans _ _ _ step (hs x c)

/-! ### Reading -/

/-- Whatever happens, the action leaves the archive as it was. -/
def Reads (act : Action α) : Prop := ∀ access a, (act access a).archive = a

theorem Reads.moves {R : Archive → Archive → Prop} {act : Action α} (reads : act.Reads)
    (refl : ∀ a, R a a) : Moves R access act := by
  intro a
  rw [reads access a]
  exact refl a

/-- A failure leaves what was there. -/
theorem Reads.archive_of_fails {act : Action α} (reads : act.Reads)
    (fails : act.Fails access a failure b) : b = a := fails.2.symm.trans (reads access a)

theorem Reads.bind {first : Action α} {second : α → Action β} (hf : first.Reads)
    (hs : ∀ x, (second x).Reads) : (first >>= second).Reads := by
  intro access
  have same : Moves (fun a b => b = a) access (first >>= second) :=
    .bind (fun _ _ _ hab hbc => hbc.trans hab) (hf access) fun x => hs x access
  exact same

/-- What reads at the end of a chain has no part in what is left. -/
theorem archive_bind_of_reads {first : Action α} {second : α → Action β}
    (reads : ∀ x, (second x).Reads) :
    ((first >>= second) access a).archive = (first access a).archive := by
  apply archive_bind (P := fun b => b = (first access a).archive)
  · exact fun _ _ fails => fails.2.symm
  · exact fun x b ends => (reads x access b).trans ends.2.symm

theorem reads_pure (x : α) : (pure x : Action α).Reads := fun _ _ => rfl

theorem reads_report (event : Event) : (report event).Reads := fun _ _ => rfl

theorem reads_reportAll (events : List Event) : (reportAll events).Reads := fun _ _ => rfl

theorem reads_fail (failure : Failure) : (fail failure : Action α).Reads := fun _ _ => rfl

theorem reads_inspect (f : Archive → Except DatabaseFault α) : (inspect f).Reads :=
  fun access a => archive_inspect f access a

theorem reads_readFilesBy (first : Query) (queries : Archive → List Query) (table : TableName)
    (f : Archive → α) : (readFilesBy first queries table f).Reads := by
  intro access a
  rw [readFilesBy]
  split <;> rfl

end Action

end LocalizationMemory
