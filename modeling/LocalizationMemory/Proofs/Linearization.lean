import Mathlib.Data.List.Dedup
import LocalizationMemory.Archive.Race
import LocalizationMemory.Proofs.Archive.Action

/-!
# Races are serial

Calls that look again once they have the right to write may race in any way: what they
come to is what they come to one after the other in some order, which lets a call that
ended before another began go first. A call takes its turn with its last step; only one
that is refused the right to write takes it with its look-up, since what it missed then
may be there when it is refused.

## Main definitions

* `Turn`, `Serial` — calls without a break, one after the other
* `Attempt.Careful` — the write looks again, and takes place only under the right to write
* `Race.Linearizes` — turns by which a race came to its archive and its results

## Main results

* `Race.step_cases` — what one step of a careful call does
* `Race.exists_succeeded` — the calls of a race that ended well
* `Race.exists_linearizes` — a race of careful calls is serial
-/

namespace LocalizationMemory

variable {ι α : Type}

deriving instance DecidableEq for Progress

/-- A call that is made without a break, with its access and its result. -/
structure Turn (ι α : Type) where
  call : ι
  access : Access
  result : Except Failure α

/-- Calls are made one after the other, and come to these results. -/
inductive Serial (acts : ι → Action α) : Archive → List (Turn ι α) → Archive → Prop
  | done (a : Archive) : Serial acts a [] a
  | turn {a b : Archive} {t : Turn ι α} {rest : List (Turn ι α)}
      (result : (acts t.call t.access a).result = t.result)
      (others : Serial acts (acts t.call t.access a).archive rest b) : Serial acts a (t :: rest) b

namespace Serial

variable {acts : ι → Action α} {a b : Archive} {turns : List (Turn ι α)}

/-- Calls move an archive along a relation if each of them does. -/
theorem moves {R : Archive → Archive → Prop} (refl : ∀ a, R a a)
    (trans : ∀ a b c, R a b → R b c → R a c) (each : ∀ i access, (acts i).Moves R access)
    (h : Serial acts a turns b) : R a b := by
  induction h with
  | done a => exact refl a
  | @turn a _ t _ _ _ ih => exact trans _ _ _ (each t.call t.access a) ih

/-- Calls are made after others. -/
theorem append {c : Archive} {later : List (Turn ι α)} (h : Serial acts a turns b)
    (next : Serial acts b later c) : Serial acts a (turns ++ later) c := by
  induction h with
  | done a => exact next
  | turn result _ ih => exact .turn result (ih next)

/-- Calls that fail can be left out if a failure leaves nothing behind. -/
theorem filter_isOk
    (nothing : ∀ i access a failure b, (acts i).Fails access a failure b → b = a)
    (h : Serial acts a turns b) : Serial acts a (turns.filter (·.result.isOk)) b := by
  induction h with
  | done a => exact .done a
  | @turn a _ t _ result _ ih =>
    cases ended : t.result with
    | ok x =>
      rw [List.filter_cons_of_pos (by rw [ended]; rfl)]
      exact .turn result ih
    | error failure =>
      rw [List.filter_cons_of_neg (by rw [ended]; exact Bool.false_ne_true)]
      have left := nothing t.call t.access a failure _ ⟨result.trans ended, rfl⟩
      rw [left] at ih
      exact ih

end Serial

namespace Attempt

/-- The look-up changes nothing and depends on the archive alone. The write looks again: where
there are tables and no one else holds the right to write, it does what both steps without a
break would do. -/
structure Careful (call : Attempt α) : Prop where
  reads : call.lookUp.Reads
  steady : ∀ access access' a, (call.lookUp access a).result = (call.lookUp access' a).result
  tables : ∀ access a, (call.lookUp access a).result = .ok none → a.layout.hasTables = true
  locked : ∀ access a, access.obstacle = some .held →
    call.write.Fails access a (.database .locked) a
  again : ∀ access a, a.layout.hasTables = true → access.obstacle ≠ some .held →
    (call.write access a).result = (call.atOnce access a).result ∧
      (call.write access a).archive = (call.atOnce access a).archive
  keepsTables : ∀ access a, a.layout.hasTables = true →
    (call.atOnce access a).archive.layout.hasTables = true

variable {call : Attempt α} {access : Access} {a : Archive}

theorem atOnce_of_found {x : α} (found : (call.lookUp access a).result = .ok (some x))
    (reads : call.lookUp.Reads) :
    (call.atOnce access a).result = .ok x ∧ (call.atOnce access a).archive = a := by
  have left := reads access a
  simp [atOnce, bind, Action.andThen, found, left, pure, Action.done]

theorem atOnce_of_failed {failure : Failure}
    (failed : (call.lookUp access a).result = .error failure) (reads : call.lookUp.Reads) :
    (call.atOnce access a).result = .error failure ∧ (call.atOnce access a).archive = a := by
  have left := reads access a
  simp [atOnce, bind, Action.andThen, failed, left]

theorem atOnce_of_missed (missed : (call.lookUp access a).result = .ok none)
    (reads : call.lookUp.Reads) :
    (call.atOnce access a).result = (call.write access a).result ∧
      (call.atOnce access a).archive = (call.write access a).archive := by
  have left := reads access a
  simp [atOnce, bind, Action.andThen, missed, left]

end Attempt

namespace Race

variable [DecidableEq ι] {calls : ι → Attempt α} {r : Race ι α} {i j : ι} {access : Access}

@[simp] theorem archive_advance (r : Race ι α) (i : ι) (p : Progress α) (a : Archive) :
    (r.advance i p a).archive = a := rfl

@[simp] theorem progress_advance_self (r : Race ι α) (i : ι) (p : Progress α) (a : Archive) :
    (r.advance i p a).progress i = p := by
  simp [advance]

theorem progress_advance_of_ne (different : j ≠ i) (p : Progress α) (a : Archive) :
    (r.advance i p a).progress j = r.progress j := by
  simp [advance, different]

/-- A step of one call leaves the others where they are. -/
theorem progress_step_of_ne (different : j ≠ i) (access : Access) :
    (r.step calls i access).progress j = r.progress j := by
  unfold step
  split
  · dsimp only
    split <;> exact progress_advance_of_ne different _ _
  · exact progress_advance_of_ne different _ _
  · rfl

/-- There are tables if a call has looked something up and missed it. -/
def Seen (r : Race ι α) : Prop := ∀ i, r.progress i = .missed → r.archive.layout.hasTables = true

/-- What one step of a careful call does: nothing, if it has ended; a miss; or its end, with the
result and the archive of both steps without a break, unless it missed and is refused now. -/
theorem step_cases (careful : (calls i).Careful) (seen : r.Seen) (access : Access) :
    (∃ access' result, r.progress i = .ended access' result ∧ r.step calls i access = r) ∨
    (r.progress i = .waiting ∧ ((calls i).lookUp access r.archive).result = .ok none ∧
      r.step calls i access = r.advance i .missed r.archive) ∨
    (r.progress i = .missed ∧ access.obstacle = some .held ∧
      r.step calls i access =
        r.advance i (.ended access (.error (.database .locked))) r.archive) ∨
    ((r.progress i = .waiting ∨ r.progress i = .missed ∧ access.obstacle ≠ some .held) ∧
      r.step calls i access =
        r.advance i (.ended access ((calls i).atOnce access r.archive).result)
          ((calls i).atOnce access r.archive).archive) := by
  unfold step
  cases progress : r.progress i with
  | ended access' result => exact .inl ⟨access', result, rfl, rfl⟩
  | missed =>
    right; right
    by_cases held : access.obstacle = some .held
    · obtain ⟨result, left⟩ := careful.locked access r.archive held
      exact .inl ⟨rfl, held, by simp only [result, left]⟩
    · obtain ⟨result, left⟩ := careful.again access r.archive (seen i progress) held
      exact .inr ⟨.inr ⟨rfl, held⟩, by simp only [result, left]⟩
  | waiting =>
    right
    have left := careful.reads access r.archive
    cases looked : ((calls i).lookUp access r.archive).result with
    | error failure =>
      obtain ⟨result, left'⟩ := Attempt.atOnce_of_failed looked careful.reads
      exact .inr (.inr ⟨.inl rfl, by simp only [looked, left, result, left']⟩)
    | ok found =>
      cases found with
      | none => exact .inl ⟨rfl, rfl, by simp only [looked, left]⟩
      | some x =>
        obtain ⟨result, left'⟩ := Attempt.atOnce_of_found looked careful.reads
        exact .inr (.inr ⟨.inl rfl, by simp only [looked, left, result, left']⟩)

/-- Where a call missed there are tables, after a step too. -/
theorem Seen.step (careful : ∀ i, (calls i).Careful) (seen : r.Seen) (i : ι) (access : Access) :
    (r.step calls i access).Seen := by
  obtain ⟨_, _, -, same⟩ | ⟨-, missed, same⟩ | ⟨-, -, same⟩ | ⟨ready, same⟩ :=
    step_cases (careful i) seen access
  · rw [same]
    exact seen
  · rw [same]
    intro j _
    exact (careful i).tables access _ missed
  · rw [same]
    intro j hj
    by_cases own : j = i
    · subst own
      simp at hj
    · exact seen j (progress_advance_of_ne own _ _ ▸ hj)
  · rw [same]
    intro j hj
    by_cases own : j = i
    · subst own
      simp at hj
    · exact (careful i).keepsTables access _ (seen j (progress_advance_of_ne own _ _ ▸ hj))

/-- A call that has ended stays so. -/
theorem progress_run_of_ended (calls : ι → Attempt α) (schedule : List (ι × Access))
    {r : Race ι α} {result : Except Failure α} (ended : r.progress i = .ended access result) :
    (r.run calls schedule).progress i = .ended access result := by
  induction schedule generalizing r with
  | nil => exact ended
  | cons next rest ih =>
    obtain ⟨j, access'⟩ := next
    refine ih ?_
    by_cases own : i = j
    · subst own
      rw [step, ended]
      exact ended
    · rw [progress_step_of_ne own, ended]

/-- A call that takes no step stays where it is. -/
theorem progress_run_of_notMem (calls : ι → Attempt α) (schedule : List (ι × Access))
    {r : Race ι α} (idle : i ∉ schedule.map (·.1)) :
    (r.run calls schedule).progress i = r.progress i := by
  induction schedule generalizing r with
  | nil => rfl
  | cons next rest ih =>
    obtain ⟨j, access'⟩ := next
    obtain ⟨other, idle⟩ : i ≠ j ∧ i ∉ rest.map (·.1) := by simpa using idle
    rw [run, ih idle, progress_step_of_ne other]

/-- The access with which a call ended well. -/
def succeeded? : Progress α → Option Access
  | .ended access (.ok _) => some access
  | _ => none

theorem succeeded?_eq_some_iff {p : Progress α} {access : Access} :
    succeeded? p = some access ↔ ∃ x, p = .ended access (.ok x) := by
  rcases p with _ | _ | ⟨_, _ | _⟩ <;> simp [succeeded?]

/-- The calls that ended well can be listed. -/
theorem exists_succeeded (calls : ι → Attempt α) (a : Archive) (schedule : List (ι × Access)) :
    ∃ succeeded : List (ι × Access), (succeeded.map (·.1)).Nodup ∧ ∀ p, p ∈ succeeded ↔
      ∃ x, ((start a).run calls schedule).progress p.1 = .ended p.2 (.ok x) := by
  let r := (start a).run calls schedule
  let succeeded := (schedule.map (·.1)).dedup.filterMap fun i =>
    (succeeded? (r.progress i)).map (i, ·)
  have mem (p : ι × Access) : p ∈ succeeded ↔ ∃ x, r.progress p.1 = .ended p.2 (.ok x) := by
    simp only [succeeded, List.mem_filterMap, Option.map_eq_some_iff, succeeded?_eq_some_iff,
      List.mem_dedup]
    constructor
    · rintro ⟨i, -, access, ended, rfl⟩
      exact ended
    · rintro ⟨x, ended⟩
      refine ⟨p.1, ?_, p.2, ⟨x, ended⟩, rfl⟩
      -- A call that took no step has not begun.
      by_contra idle
      cases (progress_run_of_notMem calls schedule idle).symm.trans ended
  refine ⟨succeeded, List.Nodup.map_on ?_ ?_, mem⟩
  · rintro ⟨i, access⟩ hp ⟨_, access'⟩ hq rfl
    obtain ⟨x, ended⟩ := (mem _).mp hp
    obtain ⟨y, ended'⟩ := (mem _).mp hq
    cases ended.symm.trans ended'
    rfl
  · refine (List.nodup_dedup _).filterMap fun i j p hi hj => ?_
    obtain ⟨_, -, rfl⟩ := Option.map_eq_some_iff.mp hi
    obtain ⟨_, -, same⟩ := Option.map_eq_some_iff.mp hj
    exact (congrArg Prod.fst same).symm

/-- A call that missed and is refused the right to write ends with that. -/
theorem result_of_refused (careful : ∀ i, (calls i).Careful) (schedule : List (ι × Access))
    {r : Race ι α} (seen : r.Seen) (missed : r.progress i = .missed)
    {result : Except Failure α} (held : access.obstacle = some .held)
    (ended : (r.run calls schedule).progress i = .ended access result) :
    result = .error (.database .locked) := by
  induction schedule generalizing r with
  | nil =>
    rw [run, missed] at ended
    cases ended
  | cons next rest ih =>
    obtain ⟨j, access'⟩ := next
    rw [run] at ended
    by_cases own : i = j
    · subst own
      -- This is its last step, under the access that is refused.
      obtain ⟨_, _, before, -⟩ | ⟨before, -⟩ | ⟨-, -, same⟩ | ⟨before | ⟨-, free⟩, same⟩ :=
        step_cases (careful i) seen access'
      · cases missed.symm.trans before
      · cases missed.symm.trans before
      · have last := progress_run_of_ended calls rest (same ▸ progress_advance_self r i _ _)
        cases last.symm.trans ended
        rfl
      · cases missed.symm.trans before
      · have last := progress_run_of_ended calls rest (same ▸ progress_advance_self r i _ _)
        cases last.symm.trans ended
        exact absurd held free
    · exact ih (seen.step careful j access') ((progress_step_of_ne own access').trans missed) ended

/-! ### The order of turns -/

/-- A call has its turn still to come: it has not ended, and if it missed it is not to be
refused the right to write. -/
def Owes (r : Race ι α) (t : Turn ι α) : Prop :=
  match r.progress t.call with
  | .waiting => True
  | .missed => t.access.obstacle ≠ some .held
  | .ended _ _ => False

theorem owes_step_of_ne {t : Turn ι α} (different : t.call ≠ i) (access : Access) :
    (r.step calls i access).Owes t ↔ r.Owes t := by
  rw [Owes, Owes, progress_step_of_ne different]

/-- The turns that are still to come in a race, up to a later state of it. -/
structure Remaining (acts : ι → Action α) (r : Race ι α) (schedule : List (ι × Access))
    (last : Race ι α) (turns : List (Turn ι α)) : Prop where
  serial : Serial acts r.archive turns last.archive
  inOrder : (turns.map (·.call)).Sublist (schedule.map (·.1))
  once : (turns.map (·.call)).Nodup
  ended : ∀ t, t ∈ turns ↔ last.progress t.call = .ended t.access t.result ∧ r.Owes t

namespace Remaining

variable {acts : ι → Action α} {r' last : Race ι α} {schedule : List (ι × Access)}
  {turns : List (Turn ι α)} {t : Turn ι α}

omit [DecidableEq ι] in
/-- A step at which no call has its turn. -/
theorem skip (h : Remaining acts r' schedule last turns) (left : r'.archive = r.archive)
    (same : ∀ t : Turn ι α, last.progress t.call = .ended t.access t.result →
      (r'.Owes t ↔ r.Owes t)) (i : ι) (access : Access) :
    Remaining acts r ((i, access) :: schedule) last turns where
  serial := left ▸ h.serial
  inOrder := h.inOrder.cons _
  once := h.once
  ended t := by
    rw [h.ended]
    exact and_congr_right (same t)

/-- A step at which a call has its turn. -/
theorem take (h : Remaining acts r' schedule last turns)
    (result : (acts t.call t.access r.archive).result = t.result)
    (left : (acts t.call t.access r.archive).archive = r'.archive)
    (ended : last.progress t.call = .ended t.access t.result) (owes : r.Owes t)
    (paid : ¬ r'.Owes t) (others : ∀ j, j ≠ t.call → r'.progress j = r.progress j)
    (access : Access) : Remaining acts r ((t.call, access) :: schedule) last (t :: turns) := by
  -- A call ends in one way, so no other turn is its own.
  have only : ∀ u : Turn ι α, last.progress u.call = .ended u.access u.result →
      u.call = t.call → u = t := by
    rintro ⟨call, access, result⟩ hu (rfl : call = t.call)
    cases hu.symm.trans ended
    rfl
  have others : ∀ u : Turn ι α, u.call ≠ t.call → (r'.Owes u ↔ r.Owes u) := by
    intro u different
    rw [Owes, Owes, others _ different]
  have fresh : ∀ u ∈ turns, u.call ≠ t.call := by
    intro u hu same
    obtain ⟨hu, owed⟩ := (h.ended u).mp hu
    exact paid (only u hu same ▸ owed)
  refine ⟨.turn result (left ▸ h.serial), h.inOrder.cons_cons _, ?_, fun u => ?_⟩
  · refine List.nodup_cons.mpr ⟨fun mem => ?_, h.once⟩
    obtain ⟨u, hu, same⟩ := List.mem_map.mp mem
    exact fresh u hu same
  · rw [List.mem_cons]
    constructor
    · rintro (rfl | hu)
      · exact ⟨ended, owes⟩
      · obtain ⟨hu', owed⟩ := (h.ended u).mp hu
        exact ⟨hu', (others u (fresh u hu)).mp owed⟩
    · rintro ⟨hu, owed⟩
      by_cases same : u.call = t.call
      · exact .inl (only u hu same)
      · exact .inr ((h.ended u).mpr ⟨hu, (others u same).mpr owed⟩)

section Step

variable {rest : List (ι × Access)}
  (h : Remaining (fun i => (calls i).atOnce) (r.step calls i access) rest
    ((r.step calls i access).run calls rest) turns)

include h

/-- A call that misses has its turn with its write, if it comes to that, and has it now if it is
refused later, when what it missed may be there. -/
theorem exists_of_missed (careful : ∀ i, (calls i).Careful) (seen : r.Seen)
    (waiting : r.progress i = .waiting)
    (missed : ((calls i).lookUp access r.archive).result = .ok none)
    (same : r.step calls i access = r.advance i .missed r.archive) :
    ∃ turns, Remaining (fun i => (calls i).atOnce) r ((i, access) :: rest)
      ((r.step calls i access).run calls rest) turns := by
  have progress : (r.step calls i access).progress i = .missed := by
    rw [same, progress_advance_self]
  by_cases refused : ∃ access' result,
      ((r.step calls i access).run calls rest).progress i = .ended access' result ∧
        access'.obstacle = some .held
  · obtain ⟨access', result, ended, held⟩ := refused
    have locked := result_of_refused careful rest (seen.step careful i access) progress held ended
    have missed' := ((careful i).steady access access' r.archive).symm.trans missed
    obtain ⟨result', left'⟩ := Attempt.atOnce_of_missed missed' (careful i).reads
    obtain ⟨result'', left''⟩ := (careful i).locked access' r.archive held
    refine ⟨_, h.take (t := ⟨i, access', result⟩) ?_ ?_ ended ?_ ?_
      (fun j different => progress_step_of_ne different access) access⟩
    · rw [result', result'', locked]
    · rw [left', left'', same, archive_advance]
    · rw [Owes, waiting]
      trivial
    · rw [Owes, progress]
      exact fun free => free held
  · refine ⟨turns, h.skip (by rw [same, archive_advance]) (fun t ended => ?_) i access⟩
    by_cases own : t.call = i
    · have free : t.access.obstacle ≠ some .held := fun held => refused ⟨_, _, own ▸ ended, held⟩
      rw [Owes, Owes, own, progress, waiting]
      simpa using free
    · exact owes_step_of_ne own access

/-- A call that is refused now had its turn when it missed. -/
theorem of_refused (missed : r.progress i = .missed) (held : access.obstacle = some .held)
    (same : r.step calls i access =
      r.advance i (.ended access (.error (.database .locked))) r.archive) :
    Remaining (fun i => (calls i).atOnce) r ((i, access) :: rest)
      ((r.step calls i access).run calls rest) turns := by
  refine h.skip (by rw [same, archive_advance]) (fun t ended => ?_) i access
  by_cases own : t.call = i
  · have last := progress_run_of_ended calls rest (same ▸ progress_advance_self r i _ _)
    rw [own] at ended
    obtain ⟨rfl, -⟩ := Progress.ended.inj (last.symm.trans ended)
    rw [Owes, Owes, own, missed, same, progress_advance_self]
    simpa using held
  · exact owes_step_of_ne own access

/-- A call has its turn with a step that does what both do without a break. -/
theorem exists_of_ready
    (ready : r.progress i = .waiting ∨ r.progress i = .missed ∧ access.obstacle ≠ some .held)
    (same : r.step calls i access =
      r.advance i (.ended access ((calls i).atOnce access r.archive).result)
        ((calls i).atOnce access r.archive).archive) :
    ∃ turns, Remaining (fun i => (calls i).atOnce) r ((i, access) :: rest)
      ((r.step calls i access).run calls rest) turns := by
  have progress := same ▸ progress_advance_self r i _ _
  refine ⟨_, h.take (t := ⟨i, access, _⟩) rfl ?_ (progress_run_of_ended calls rest progress) ?_ ?_
    (fun j different => progress_step_of_ne different access) access⟩
  · rw [same, archive_advance]
  · rw [Owes]
    obtain before | ⟨before, free⟩ := ready
    · rw [before]
      trivial
    · rw [before]
      exact free
  · rw [Owes, progress]
    exact id

end Step

end Remaining

/-- From wherever careful calls have come to, they go on in turns. -/
theorem exists_remaining (careful : ∀ i, (calls i).Careful) (schedule : List (ι × Access))
    (seen : r.Seen) :
    ∃ turns, Remaining (fun i => (calls i).atOnce) r schedule (r.run calls schedule) turns := by
  induction schedule generalizing r with
  | nil =>
    refine ⟨[], .done _, by simp, by simp, fun t => ?_⟩
    -- Without a step a call that has ended had its turn before.
    have paid : ¬ (r.progress t.call = .ended t.access t.result ∧ r.Owes t) := by
      rintro ⟨ended, owes⟩
      rw [Owes, ended] at owes
      exact owes
    simpa [run] using paid
  | cons next rest ih =>
    obtain ⟨i, access⟩ := next
    obtain ⟨turns, remaining⟩ := ih (seen.step careful i access)
    obtain ⟨_, _, -, same⟩ | ⟨waiting, missed, same⟩ | ⟨missed, held, same⟩ | ⟨ready, same⟩ :=
      step_cases (careful i) seen access
    · refine ⟨turns, remaining.skip (by rw [same]) (fun t _ => ?_) i access⟩
      rw [same]
    · exact remaining.exists_of_missed careful seen waiting missed same
    · exact ⟨turns, remaining.of_refused missed held same⟩
    · exact remaining.exists_of_ready ready same

/-! ### Whole races -/

/-- Turns by which a race came to its archive and its results: one for each call that has ended,
in an order in which it can have taken it during the steps of the schedule. -/
structure Linearizes (acts : ι → Action α) (a : Archive) (schedule : List (ι × Access))
    (r : Race ι α) (turns : List (Turn ι α)) : Prop where
  serial : Serial acts a turns r.archive
  inOrder : (turns.map (·.call)).Sublist (schedule.map (·.1))
  once : (turns.map (·.call)).Nodup
  ended : ∀ t, t ∈ turns ↔ r.progress t.call = .ended t.access t.result

/-- A race of careful calls is serial. -/
theorem exists_linearizes (careful : ∀ i, (calls i).Careful) (a : Archive)
    (schedule : List (ι × Access)) :
    ∃ turns, Linearizes (fun i => (calls i).atOnce) a schedule ((start a).run calls schedule)
      turns := by
  have seen : (start a : Race ι α).Seen := fun i missed => nomatch missed
  obtain ⟨turns, remaining⟩ := exists_remaining careful schedule seen
  refine ⟨turns, remaining.serial, remaining.inOrder, remaining.once, fun t => ?_⟩
  rw [remaining.ended, and_iff_left]
  trivial

end Race

end LocalizationMemory
