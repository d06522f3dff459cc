import LocalizationMemory.Proofs.Archive.Links
import LocalizationMemory.Proofs.Linearization
import LocalizationMemory.Proofs.Reachability

/-!
# Mods that are made at once

Any number of connections may make sure of mods at once, each looking its name up first
and making the mod under the right to write. However their steps are mixed, there is one
mod of a name, and all who ask for it are given its id. A call that missed its mod inserts
it though, and links its alias, even if another call has made the mod meanwhile. So it
fails if mods are refused by then, and the links are those of the calls one after the other
in some order exactly if no name that was new has come to two of them.

## Main definitions

* `Race.ModStep` — what one step does
* `Race.Writes` — calls that missed their mods write, one after the other
* `Archive.Mirrors` — an archive of turns, with the mods that no later call is to link
* `Race.MirroredBy` — turns that leave a mirror of what writes leave
* `Race.LinksInTurns` — the calls that ended well come to the same links in some order

## Main results

* `Serial.linkedOnce` — calls one after the other link a new name once at most
* `Race.Writes.exists_mirroredBy` — writes of which none links a new name again can be made in turns
* `Race.late_call_refused` — a call that missed its mod fails where a new call is served
* `Race.mods_serializable_iff` — calls that race
-/

namespace LocalizationMemory

open Archive

variable {ι : Type} {nameOf : ι → String} {remoteOf : ι → Option String} {a b c d : Archive}
  {access : Access}

/-! ### Calls one after the other -/

/-- A call fails, finds the mod of its name, or makes it. -/
theorem Action.ensureMod_cases (name : String) (remoteId : Option String) (access : Access)
    (a : Archive) :
    (∃ failure, (ensureMod name remoteId).Fails access a failure a) ∨
    (∃ m, a.mod? name = some m ∧ (ensureMod name remoteId).Ends access a m.id a) ∨
    (name ∉ a.modNames ∧ ∃ id b, a.addMod name remoteId access.now = .ok (id, b) ∧
      (ensureMod name remoteId).Ends access a id b) := by
  cases result : (ensureMod name remoteId access a).result with
  | error failure =>
    have fails : (ensureMod name remoteId).Fails access a failure _ := ⟨result, rfl⟩
    rw [archive_of_fails_ensureMod fails] at fails
    exact .inl ⟨failure, fails⟩
  | ok id =>
    have ends : (ensureMod name remoteId).Ends access a id _ := ⟨result, rfl⟩
    obtain ⟨-, ⟨m, found, rfl, left⟩ | ⟨new, -, -, made⟩⟩ := ends_ensureMod_iff.mp ends
    · rw [left] at ends
      exact .inr (.inl ⟨m, found, ends⟩)
    · exact .inr (.inr ⟨mod?_eq_none_iff.mp new, id, _, made, ends⟩)

/-- A mod that is made is of a name without a link, and gets one link at most. -/
theorem Archive.LinkedOnce.addMod {name : String} {remoteId : Option String} {now : Millis}
    {id : RowId} (once : a.LinkedOnce b) (hb : b.Consistent) (new : name ∉ b.modNames)
    (made : b.addMod name remoteId now = .ok (id, c)) : a.LinkedOnce c := by
  intro n hn x y hx hy
  rw [links_addMod hb made, List.mem_append, Option.mem_toList] at hx hy
  have ofName {z : String} (hz : b.newLink? name remoteId = some (n, z)) : n ∉ b.modNames := by
    obtain ⟨rfl, -⟩ := (newLink?_eq_some_iff hb).mp hz
    exact new
  rcases hx with hx | hx <;> rcases hy with hy | hy
  · exact once n hn x y hx hy
  · exact absurd (fst_mem_modNames hx) (ofName hy)
  · exact absurd (fst_mem_modNames hy) (ofName hx)
  · exact congrArg Prod.snd (Option.some.inj (hx.symm.trans hy))

/-- Calls one after the other link a name that is new once at most. -/
theorem Serial.linkedOnce {turns : List (Turn ι RowId)}
    (h : Serial (fun i => Action.ensureMod (nameOf i) (remoteOf i)) a turns b)
    (ha : a.Consistent) : a.LinkedOnce b := by
  have kept := h.moves (R := fun b c => b.Consistent ∧ a.LinkedOnce b →
    c.Consistent ∧ a.LinkedOnce c) (fun _ => id) (fun _ _ _ first second => second ∘ first) ?_
  · exact (kept ⟨ha, fun _ new _ _ hx => absurd (fst_mem_modNames hx) new⟩).2
  · rintro i access b ⟨hb, once⟩
    obtain ⟨failure, fails⟩ | ⟨m, -, ends⟩ | ⟨new, id, c, made, ends⟩ :=
      Action.ensureMod_cases (nameOf i) (remoteOf i) access b
    · rw [fails.2]
      exact ⟨hb, once⟩
    · rw [ends.2]
      exact ⟨hb, once⟩
    · rw [ends.2]
      exact ⟨hb.addMod made, once.addMod hb new made⟩

/-! ### The two steps of a call -/

section Steps

variable {name : String} {remoteId : Option String} (tables : a.layout.hasTables = true)

include tables

/-- The look-up of a call gives the id of its mod, if there is one. -/
theorem Attempt.lookUp_ensureMod :
    (ensureMod name remoteId).lookUp access a =
      ⟨.ok ((a.mod? name).map (·.id)), a, [], .ended .success⟩ := by
  cases found : a.mod? name <;>
    simp [ensureMod, Action.modNamed, bind, Action.andThen, Action.run_read, tables, found, pure,
      Action.done, Trace.andThen]

/-- The write of a call fails where inserts of mods are refused. -/
theorem Action.fails_commitMod_of_refused {cause : DatabaseFault} (free : access.CanWrite)
    (refused : a.refusal? .mods = some cause) :
    (commitMod name remoteId).Fails access a (.database cause) a := by
  have added : a.addMod name remoteId access.now = .error cause := by
    simp [addMod, insertMod, accepting, refused, bind, Except.bind]
  have permission : access.permission = .ok () := by rw [Access.permission, free.2]
  have failed : (commitMod name remoteId access a).result = .error (.database cause) := by
    simp [commitMod, bind, andThen, write, free.2, Access.change, Int.not_lt.mpr free.1, tables,
      permission, added, Except.mapError]
  exact ⟨failed, archive_of_fails_commitMod ⟨failed, rfl⟩⟩

end Steps

/-! ### The writes of calls that missed -/

namespace Race

/-- Calls write, one after the other, of which each is for a mod that was not there at first. -/
inductive Writes (nameOf : ι → String) (remoteOf : ι → Option String) (a : Archive) :
    List (ι × Access) → Archive → Prop
  | none : Writes nameOf remoteOf a [] a
  | write {i : ι} {access : Access} {id : RowId} {c d : Archive} {writes : List (ι × Access)}
      (before : Writes nameOf remoteOf a writes c) (new : nameOf i ∉ a.modNames)
      (made : (Action.commitMod (nameOf i) (remoteOf i)).Ends access c id d) :
      Writes nameOf remoteOf a (writes ++ [(i, access)]) d

namespace Writes

variable {writes : List (ι × Access)} (h : Writes nameOf remoteOf a writes c)

include h

theorem isConsistent (ha : a.Consistent) : c.Consistent := by
  induction h with
  | none => exact ha
  | write _ _ made ih => exact ih.addMod (Action.ends_commitMod_iff.mp made).2.2.2

/-- Layout and rules are as they were. -/
theorem frame : c.layout = a.layout ∧ c.rules = a.rules := by
  induction h with
  | none => exact ⟨rfl, rfl⟩
  | write _ _ made ih =>
    rw [addMod_frame (Action.ends_commitMod_iff.mp made).2.2.2]
    exact ih

/-- The names are those that were there, and those that were written. -/
theorem mem_modNames_iff {name : String} :
    name ∈ c.modNames ↔ name ∈ a.modNames ∨ ∃ p ∈ writes, nameOf p.1 = name := by
  induction h with
  | none => simp
  | write _ _ made ih =>
    rw [mem_modNames_addMod (Action.ends_commitMod_iff.mp made).2.2.2, ih]
    simp [or_assoc, eq_comm (a := name)]

/-- Links stay, and new ones are of writes. -/
theorem links_cases (ha : a.Consistent) : a.links <+: c.links ∧
    ∀ l ∈ c.links, l ∈ a.links ∨ l.1 ∉ a.modNames ∧ ∃ p ∈ writes, nameOf p.1 = l.1 ∧
      remoteOf p.1 = some l.2 ∧ Text.allBlank l.2 = false := by
  induction h with
  | none => exact ⟨List.prefix_rfl, fun _ => .inl⟩
  | @write i access id c d writes before new made ih =>
    have added := links_addMod (before.isConsistent ha) (Action.ends_commitMod_iff.mp made).2.2.2
    rw [added]
    refine ⟨ih.1.trans (List.prefix_append _ _), fun l hl => ?_⟩
    rcases List.mem_append.mp hl with old | own
    · exact (ih.2 l old).imp_right fun ⟨fresh, p, hp, of⟩ =>
        ⟨fresh, p, List.mem_append_left _ hp, of⟩
    · obtain ⟨name, remote, shown, -⟩ :=
        (newLink?_eq_some_iff (before.isConsistent ha)).mp (Option.mem_toList.mp own)
      exact .inr ⟨name ▸ new, (i, access), by simp, name.symm, remote, shown⟩

end Writes

end Race

/-! ### The writes in turns -/

namespace Archive

variable {last : Archive} {name : String}

/-- A mod that was not there at first has no link yet, and is to have one at last. -/
def AwaitsLink (a c last : Archive) (name : String) : Prop :=
  name ∉ a.modNames ∧ (∃ x, (name, x) ∈ last.links) ∧ ∀ x, (name, x) ∉ c.links

theorem awaitsLink_congr (same : d.links = c.links) :
    a.AwaitsLink d last name ↔ a.AwaitsLink c last name := by
  rw [AwaitsLink, AwaitsLink, same]

/-- After a link its mod waits no more, and the others as before. -/
theorem awaitsLink_iff_of_link {l : String × String} (linked : d.links = c.links ++ [l]) :
    a.AwaitsLink d last name ↔ name ≠ l.1 ∧ a.AwaitsLink c last name := by
  by_cases same : name = l.1
  · subst same
    simp only [ne_eq, not_true_eq_false, false_and, iff_false]
    exact fun waits => waits.2.2 l.2 (by simp [linked])
  · have other (x : String) : (name, x) ∈ d.links ↔ (name, x) ∈ c.links := by
      have differs : (name, x) ≠ l := fun eq => same (congrArg Prod.fst eq)
      simp [linked, differs]
    simp [AwaitsLink, other, same]

/-- The mod of a link that is new was waiting for it, since its name has no other one at last. -/
theorem awaitsLink_of_link {l : String × String} (linked : d.links = c.links ++ [l])
    (once : a.LinkedOnce last) (within : d.links ⊆ last.links) (new : l.1 ∉ a.modNames)
    (untaken : l ∉ c.links) : a.AwaitsLink c last l.1 := by
  have own : l ∈ last.links := within (by simp [linked])
  refine ⟨new, ⟨l.2, own⟩, fun x hx => untaken ?_⟩
  have same := once _ new x l.2 (within (linked ▸ List.mem_append_left _ hx)) own
  rwa [same] at hx

/-- An archive has the links of another, and those of its mods that do not wait for a link. -/
structure Mirrors (a last c b : Archive) : Prop where
  consistent : b.Consistent
  layout : b.layout = c.layout
  rules : b.rules = c.rules
  links : b.links = c.links
  names : ∀ name, name ∈ b.modNames ↔ name ∈ c.modNames ∧ ¬ a.AwaitsLink c last name

namespace Mirrors

variable {remoteId : Option String} {id : RowId} (h : a.Mirrors last c b)
  (made : (Action.commitMod name remoteId).Ends access c id d)

include h made

/-- A write of a mod that the mirror lacks is mirrored by the whole call. -/
theorem exists_call (hc : c.Consistent) (lacking : name ∉ b.modNames)
    (waits : ∀ n, a.AwaitsLink d last n ↔ n ≠ name ∧ a.AwaitsLink c last n) :
    ∃ id e, (Action.ensureMod name remoteId).Ends access b id e ∧ a.Mirrors last d e := by
  obtain ⟨early, tables, free, made⟩ := Action.ends_commitMod_iff.mp made
  have fewer : b.modNames ⊆ c.modNames := fun n hn => ((h.names n).mp hn).1
  obtain ⟨id', e, made'⟩ := exists_addMod_of_links hc h.consistent h.rules fewer h.links made
  have ends : (Action.ensureMod name remoteId).Ends access b id' e :=
    Action.ends_ensureMod_iff.mpr
      ⟨h.layout ▸ tables, .inr ⟨mod?_eq_none_iff.mpr lacking, early, free, made'⟩⟩
  have framed := addMod_frame made
  have framee := addMod_frame made'
  refine ⟨id', e, ends, h.consistent.addMod made', ?_, ?_, ?_, fun n => ?_⟩
  · rw [framee, framed]
    exact h.layout
  · rw [framee, framed]
    exact h.rules
  · rw [links_addMod h.consistent made', links_addMod hc made, h.links,
      newLink?_congr hc h.consistent h.links]
  · rw [mem_modNames_addMod made', mem_modNames_addMod made, h.names, waits]
    by_cases own : n = name <;> simp [own]

/-- A write that links nothing is mirrored by nothing if the mod is there or waits. -/
theorem of_unlinked (unlinked : d.links = c.links)
    (known : name ∈ c.modNames ∨ a.AwaitsLink c last name) : a.Mirrors last d b := by
  obtain ⟨-, -, -, made⟩ := Action.ends_commitMod_iff.mp made
  have frame := addMod_frame made
  refine ⟨h.consistent, ?_, ?_, h.links.trans unlinked.symm, fun n => ?_⟩
  · rw [frame]
    exact h.layout
  · rw [frame]
    exact h.rules
  · rw [mem_modNames_addMod made, h.names]
    simp only [AwaitsLink, unlinked] at known ⊢
    constructor
    · exact fun ⟨there, decided⟩ => ⟨.inl there, decided⟩
    · rintro ⟨there | rfl, decided⟩
      · exact ⟨there, decided⟩
      · exact ⟨known.resolve_right decided, decided⟩

end Mirrors

end Archive

namespace Race

/-- Turns of the calls of some writes. They succeed, and leave a mirror of what the writes leave. -/
structure MirroredBy (nameOf : ι → String) (remoteOf : ι → Option String) (a last c : Archive)
    (writes : List (ι × Access)) (turns : List (Turn ι RowId)) (b : Archive) : Prop where
  serial : Serial (fun i => Action.ensureMod (nameOf i) (remoteOf i)) a turns b
  sublist : (turns.map fun t => (t.call, t.access)).Sublist writes
  succeed : ∀ t ∈ turns, t.result.isOk = true
  mirrors : a.Mirrors last c b

namespace MirroredBy

variable {last : Archive} {writes : List (ι × Access)} {turns : List (Turn ι RowId)}
  {i : ι} {id : RowId} (h : MirroredBy nameOf remoteOf a last c writes turns b)
  (made : (Action.commitMod (nameOf i) (remoteOf i)).Ends access c id d)

include h made

/-- A write of a mod that the mirror lacks has its turn after the others. -/
theorem exists_append (hc : c.Consistent) (lacking : nameOf i ∉ b.modNames)
    (waits : ∀ n, a.AwaitsLink d last n ↔ n ≠ nameOf i ∧ a.AwaitsLink c last n) :
    ∃ turns b, MirroredBy nameOf remoteOf a last d (writes ++ [(i, access)]) turns b := by
  obtain ⟨id', e, ends, mirrors⟩ := h.mirrors.exists_call made hc lacking waits
  refine ⟨turns ++ [⟨i, access, .ok id'⟩], e, h.serial.append (.turn ends.1 ?_), ?_, ?_, mirrors⟩
  · rw [ends.2]
    exact .done e
  · simpa using h.sublist.append_right [(i, access)]
  · simpa [or_imp, forall_and, Except.isOk, Except.toBool] using h.succeed

/-- A write that links nothing has no turn if its mod is there or waits. -/
theorem skip (unlinked : d.links = c.links)
    (known : nameOf i ∈ c.modNames ∨ a.AwaitsLink c last (nameOf i)) :
    MirroredBy nameOf remoteOf a last d (writes ++ [(i, access)]) turns b where
  serial := h.serial
  sublist := h.sublist.trans (List.sublist_append_left _ _)
  succeed := h.succeed
  mirrors := h.mirrors.of_unlinked made unlinked known

end MirroredBy

/-- Writes of which none links a new name again can be made in turns. A turn is taken by the call
that links a name, and by the first one if none does. -/
theorem Writes.exists_mirroredBy {writes : List (ι × Access)} {last : Archive}
    (h : Writes nameOf remoteOf a writes c) (ha : a.Consistent) (within : c.links ⊆ last.links)
    (once : a.LinkedOnce last) :
    ∃ turns b, MirroredBy nameOf remoteOf a last c writes turns b := by
  induction h with
  | none =>
    refine ⟨[], a, .done a, .slnil, by simp, ha, rfl, rfl, rfl, fun name => ?_⟩
    rw [and_iff_left_of_imp]
    exact fun there waits => waits.1 there
  | @write i access id c d writes before new made ih =>
    have hc := before.isConsistent ha
    have added := links_addMod hc (Action.ends_commitMod_iff.mp made).2.2.2
    obtain ⟨turns, b, mirrored⟩ := ih fun l hl => within (added ▸ List.mem_append_left _ hl)
    have names := mirrored.mirrors.names (nameOf i)
    cases link : c.newLink? (nameOf i) (remoteOf i) with
    | some l =>
      obtain ⟨name, -, -, untaken⟩ := (newLink?_eq_some_iff hc).mp link
      rw [link, Option.toList_some] at added
      rw [← name] at new
      have waiting := awaitsLink_of_link added once within new (untaken l.1)
      refine mirrored.exists_append made hc (fun there => (names.mp there).2 (name ▸ waiting)) ?_
      exact fun n => name ▸ awaitsLink_iff_of_link added
    | none =>
      rw [link, Option.toList_none, List.append_nil] at added
      by_cases known : nameOf i ∈ c.modNames ∨ a.AwaitsLink c last (nameOf i)
      · exact ⟨turns, b, mirrored.skip made added known⟩
      · obtain ⟨absent, decided⟩ := not_or.mp known
        refine mirrored.exists_append made hc (fun there => absent (names.mp there).1) fun n => ?_
        rw [awaitsLink_congr added, iff_and_self]
        rintro waits rfl
        exact decided waits

/-! ### Calls at once -/

variable [DecidableEq ι] {r : Race ι RowId} {i : ι}

/-- What one step of a call does. -/
inductive ModStep (nameOf : ι → String) (remoteOf : ι → Option String) (r : Race ι RowId) (i : ι)
    (access : Access) : Race ι RowId → Prop
  /-- A call that has ended takes no step. -/
  | after {access' : Access} {result : Except Failure RowId}
      (ended : r.progress i = .ended access' result) : ModStep nameOf remoteOf r i access r
  | failed {failure : Failure} (begun : ∀ access' result, r.progress i ≠ .ended access' result)
      (stopped : r.archive.layout.hasTables = true → r.archive.rules = [] → ¬ access.CanWrite) :
      ModStep nameOf remoteOf r i access (r.advance i (.ended access (.error failure)) r.archive)
  | found {m : ModRow} (waiting : r.progress i = .waiting)
      (tables : r.archive.layout.hasTables = true)
      (found : r.archive.mod? (nameOf i) = some m) :
      ModStep nameOf remoteOf r i access (r.advance i (.ended access (.ok m.id)) r.archive)
  | missed (waiting : r.progress i = .waiting) (new : nameOf i ∉ r.archive.modNames) :
      ModStep nameOf remoteOf r i access (r.advance i .missed r.archive)
  | made {id : RowId} {b : Archive} (missed : r.progress i = .missed)
      (made : (Action.commitMod (nameOf i) (remoteOf i)).Ends access r.archive id b) :
      ModStep nameOf remoteOf r i access (r.advance i (.ended access (.ok id)) b)

theorem modStep_step (nameOf : ι → String) (remoteOf : ι → Option String) (r : Race ι RowId)
    (i : ι) (access : Access) :
    r.ModStep nameOf remoteOf i access
      (r.step (fun i => Attempt.ensureMod (nameOf i) (remoteOf i)) i access) := by
  unfold step
  cases progress : r.progress i with
  | ended access' result => exact .after progress
  | waiting =>
    have begun : ∀ access' result, r.progress i ≠ .ended access' result := by simp [progress]
    cases tables : r.archive.layout.hasTables with
    | false =>
      have looked : (Attempt.ensureMod (nameOf i) (remoteOf i)).lookUp access r.archive =
          ⟨.error (.database (.noSuchTable .mods)), r.archive, [],
            .ended (.failure (.noSuchTable .mods))⟩ := by
        simp [Attempt.ensureMod, Action.modNamed, bind, Action.andThen, Action.run_read, tables]
      simp only [looked]
      exact .failed begun fun there => absurd there (by simp [tables])
    | true =>
      cases found : r.archive.mod? (nameOf i) with
      | none =>
        simp only [Attempt.lookUp_ensureMod tables, found]
        exact .missed progress (mod?_eq_none_iff.mp found)
      | some m =>
        simp only [Attempt.lookUp_ensureMod tables, found]
        exact .found progress tables found
  | missed =>
    have begun : ∀ access' result, r.progress i ≠ .ended access' result := by simp [progress]
    dsimp only
    cases result : ((Attempt.ensureMod (nameOf i) (remoteOf i)).write access r.archive).result with
    | ok id => exact .made progress ⟨result, rfl⟩
    | error failure =>
      have left : ((Attempt.ensureMod (nameOf i) (remoteOf i)).write access r.archive).archive =
          r.archive := Action.archive_of_fails_commitMod ⟨result, rfl⟩
      rw [left]
      refine .failed begun fun tables rules free => ?_
      obtain ⟨id, b, made⟩ := exists_addMod_iff.mpr
        ⟨refusal?_of_rules rules .mods, fun _ => refusal?_of_rules rules .modIdentities⟩
      have ends := Action.ends_commitMod_iff.mpr ⟨free.1, tables, free.2, made⟩
      cases ends.1.symm.trans result

/-- What has come of calls: writes of those that missed their mods, and the ids of mods. -/
structure Accounted (nameOf : ι → String) (remoteOf : ι → Option String) (a : Archive)
    (r : Race ι RowId) : Prop where
  writes : ∃ writes, Writes nameOf remoteOf a writes r.archive ∧ (writes.map (·.1)).Nodup ∧
    ∀ p ∈ writes, ∃ id, r.progress p.1 = .ended p.2 (.ok id)
  new : ∀ i, r.progress i = .missed → nameOf i ∉ a.modNames
  ids : ∀ i access id, r.progress i = .ended access (.ok id) → a.layout.hasTables = true ∧
    ∃ m, r.archive.mod? (nameOf i) = some m ∧ m.id = id

namespace Accounted

/-- A step that writes nothing leaves the writes as they are. -/
theorem advance (h : Accounted nameOf remoteOf a r) {p : Progress RowId}
    (begun : ∀ access result, r.progress i ≠ .ended access result)
    (new : p = .missed → nameOf i ∉ a.modNames)
    (ids : ∀ access id, p = .ended access (.ok id) → a.layout.hasTables = true ∧
      ∃ m, r.archive.mod? (nameOf i) = some m ∧ m.id = id) :
    Accounted nameOf remoteOf a (r.advance i p r.archive) := by
  obtain ⟨writes, written, once, ended⟩ := h.writes
  refine ⟨⟨writes, written, once, fun q hq => ?_⟩, fun j missed => ?_, fun j access id ends => ?_⟩
  · obtain ⟨id, ended⟩ := ended q hq
    have other : q.1 ≠ i := fun same => begun _ _ (same ▸ ended)
    exact ⟨id, (progress_advance_of_ne other _ _).trans ended⟩
  · by_cases own : j = i
    · subst own
      exact new ((progress_advance_self r j _ _).symm.trans missed)
    · exact h.new j ((progress_advance_of_ne own _ _).symm.trans missed)
  · by_cases own : j = i
    · subst own
      exact ids access id ((progress_advance_self r j _ _).symm.trans ends)
    · exact h.ids j access id ((progress_advance_of_ne own _ _).symm.trans ends)

/-- A call that missed its mod writes. -/
theorem write (h : Accounted nameOf remoteOf a r) (ha : a.Consistent)
    (missed : r.progress i = .missed) {id : RowId}
    (made : (Action.commitMod (nameOf i) (remoteOf i)).Ends access r.archive id b) :
    Accounted nameOf remoteOf a (r.advance i (.ended access (.ok id)) b) := by
  obtain ⟨writes, written, once, ended⟩ := h.writes
  have next := written.write (h.new i missed) made
  obtain ⟨-, tables, -, added⟩ := Action.ends_commitMod_iff.mp made
  have others : ∀ q ∈ writes, q.1 ≠ i := by
    intro q hq same
    obtain ⟨id, ended⟩ := ended q hq
    cases (same ▸ missed).symm.trans ended
  refine ⟨⟨_, next, ?_, fun q hq => ?_⟩, fun j missed' => ?_, fun j access' id' ends => ?_⟩
  · rw [List.map_append, List.nodup_append]
    simpa [once] using fun x y hxy same => others _ hxy same
  · rcases List.mem_append.mp hq with old | own
    · obtain ⟨id', ended⟩ := ended q old
      exact ⟨id', (progress_advance_of_ne (others q old) _ _).trans ended⟩
    · obtain rfl := List.mem_singleton.mp own
      exact ⟨id, progress_advance_self r i _ _⟩
  · by_cases own : j = i
    · subst own
      cases (progress_advance_self r j _ _).symm.trans missed'
    · exact h.new j ((progress_advance_of_ne own _ _).symm.trans missed')
  · by_cases own : j = i
    · subst own
      cases (progress_advance_self r j _ _).symm.trans ends
      exact ⟨written.frame.1 ▸ tables, mod?_addMod added⟩
    · obtain ⟨there, m, hm, same⟩ :=
        h.ids j access' id' ((progress_advance_of_ne own _ _).symm.trans ends)
      obtain ⟨m', hm', same'⟩ := (Grows.addMod added).mod? (next.isConsistent ha) hm
      exact ⟨there, m', hm', same'.trans same⟩

/-- What one step keeps. -/
theorem step (h : Accounted nameOf remoteOf a r) (ha : a.Consistent) {s : Race ι RowId}
    (step : r.ModStep nameOf remoteOf i access s) : Accounted nameOf remoteOf a s := by
  obtain ⟨writes, written, -, -⟩ := h.writes
  cases step with
  | after => exact h
  | failed begun =>
    apply h.advance begun
    · exact nofun
    · exact nofun
  | found waiting tables found =>
    refine h.advance (by simp [waiting]) nofun fun access id ends => ?_
    cases ends
    exact ⟨written.frame.1 ▸ tables, _, found, rfl⟩
  | missed waiting new =>
    refine h.advance (by simp [waiting]) (fun _ there => new ?_) nofun
    exact written.mem_modNames_iff.mpr (.inl there)
  | made missed made => exact h.write ha missed made

/-- What a race keeps. -/
theorem run (ha : a.Consistent) (schedule : List (ι × Access)) {r : Race ι RowId}
    (h : Accounted nameOf remoteOf a r) :
    Accounted nameOf remoteOf a
      (r.run (fun i => Attempt.ensureMod (nameOf i) (remoteOf i)) schedule) := by
  induction schedule generalizing r with
  | nil => exact h
  | cons next rest ih =>
    obtain ⟨i, access⟩ := next
    exact ih (h.step ha (modStep_step nameOf remoteOf r i access))

omit [DecidableEq ι] in
theorem start (nameOf : ι → String) (remoteOf : ι → Option String) (a : Archive) :
    Accounted nameOf remoteOf a (start a) where
  writes := ⟨[], .none, by simp, by simp⟩
  new _ missed := nomatch missed
  ids _ _ _ ended := nomatch ended

end Accounted

/-- The steps that a call may take before it ends. -/
def stepsLeft : Progress RowId → Nat
  | .waiting => 2
  | .missed => 1
  | .ended _ _ => 0

/-- If nothing stands in the way of a step, the call has come further by it. -/
theorem ModStep.goesOn {s : Race ι RowId} (step : r.ModStep nameOf remoteOf i access s)
    (tables : r.archive.layout.hasTables = true) (rules : r.archive.rules = [])
    (free : access.CanWrite) :
    s.archive.layout.hasTables = true ∧ s.archive.rules = [] ∧
      stepsLeft (s.progress i) ≤ stepsLeft (r.progress i) - 1 ∧
      ∀ failure access', s.progress i = .ended access' (.error failure) →
        r.progress i = .ended access' (.error failure) := by
  cases step with
  | after ended => exact ⟨tables, rules, by simp [ended, stepsLeft], fun _ _ => id⟩
  | failed _ stopped => exact absurd free (stopped tables rules)
  | found => exact ⟨tables, rules, by simp [stepsLeft], by simp⟩
  | missed waiting => exact ⟨tables, rules, by simp [stepsLeft, waiting], by simp⟩
  | made _ made =>
    have frame := addMod_frame (Action.ends_commitMod_iff.mp made).2.2.2
    rw [archive_advance, frame]
    exact ⟨tables, rules, by simp [stepsLeft], by simp⟩

/-- If nothing stands in the way of any step, a call that takes all its steps ends well. -/
theorem exists_ended_of_steps (schedule : List (ι × Access)) {r : Race ι RowId}
    (tables : r.archive.layout.hasTables = true) (rules : r.archive.rules = [])
    (free : ∀ s ∈ schedule, s.2.CanWrite)
    (well : ∀ failure access, r.progress i ≠ .ended access (.error failure))
    (enough : stepsLeft (r.progress i) ≤ schedule.countP (·.1 = i)) :
    ∃ access id, (r.run (fun i => Attempt.ensureMod (nameOf i) (remoteOf i)) schedule).progress i =
      .ended access (.ok id) := by
  induction schedule generalizing r with
  | nil =>
    rw [run]
    cases progress : r.progress i with
    | waiting => simp [progress, stepsLeft] at enough
    | missed => simp [progress, stepsLeft] at enough
    | ended access result =>
      cases result with
      | ok id => exact ⟨access, id, rfl⟩
      | error failure => exact absurd progress (well failure access)
  | cons next rest ih =>
    obtain ⟨j, access⟩ := next
    obtain ⟨now, later⟩ := List.forall_mem_cons.mp free
    have step := modStep_step nameOf remoteOf r j access
    obtain ⟨tables', rules', fewer, failed⟩ := step.goesOn tables rules now
    by_cases own : j = i
    · subst own
      refine ih tables' rules' later (fun failure access' ends => ?_) ?_
      · exact well failure access' (failed failure access' ends)
      · rw [List.countP_cons_of_pos (by simp)] at enough
        omega
    · have other : (r.step (fun i => Attempt.ensureMod (nameOf i) (remoteOf i)) j access).progress
          i = r.progress i := progress_step_of_ne (Ne.symm own) access
      refine ih tables' rules' later (fun failure access' => ?_) ?_
      · rw [other]
        exact well failure access'
      · rw [List.countP_cons_of_neg (by simpa using own)] at enough
        rw [other]
        exact enough

/-- A call that missed its mod inserts it, even if another call has made it meanwhile. Where inserts
of mods are refused it fails then, although a call for the same mod that only looks up now is given
the id. -/
theorem late_call_refused {j : ι} {m : ModRow} {cause : DatabaseFault}
    (missed : r.progress i = .missed) (waiting : r.progress j = .waiting)
    (same : nameOf j = nameOf i) (tables : r.archive.layout.hasTables = true)
    (made : r.archive.mod? (nameOf i) = some m) (refused : r.archive.refusal? .mods = some cause)
    (free : access.CanWrite) :
    let calls := fun i => Attempt.ensureMod (nameOf i) (remoteOf i)
    (r.step calls i access).progress i = .ended access (.error (.database cause)) ∧
      (r.step calls j access).progress j = .ended access (.ok m.id) := by
  intro calls
  constructor
  · have failed : (Action.commitMod (nameOf i) (remoteOf i) access r.archive).result =
        .error (.database cause) := (Action.fails_commitMod_of_refused tables free refused).1
    rw [step, missed]
    exact (progress_advance_self r i _ _).trans (congrArg _ failed)
  · rw [step, waiting]
    simp only [calls, Attempt.lookUp_ensureMod tables, same, made]
    exact progress_advance_self r j _ _

/-- Two calls miss a mod before it is the last one that is accepted, and a third one looks it up
after that. -/
example :
    let a : Archive :=
      { layout := .current, mods := ⟨[⟨1, "Alpha", 0⟩], 1⟩, rules := [⟨.mods, 2, "full"⟩] }
    let r := (Race.start a).run (fun _ : Fin 3 => Attempt.ensureMod "Beta" none)
      [(0, { now := 2 }), (1, { now := 2 }), (0, { now := 3 }), (1, { now := 4 }), (2, { now := 5 })]
    r.progress 0 = .ended { now := 3 } (.ok 2) ∧
      r.progress 1 = .ended { now := 4 } (.error (.database (.refused "full"))) ∧
      r.progress 2 = .ended { now := 5 } (.ok 2) := by
  decide +kernel

/-- The calls that ended well can be made in turns, and come to the same links. -/
structure LinksInTurns (nameOf : ι → String) (remoteOf : ι → Option String) (a : Archive)
    (r : Race ι RowId) (turns : List (Turn ι RowId)) : Prop where
  serial : ∃ b, Serial (fun i => Action.ensureMod (nameOf i) (remoteOf i)) a turns b ∧
    ∀ l, l ∈ b.links ↔ l ∈ r.archive.links
  once : (turns.map (·.call)).Nodup
  succeed : ∀ t ∈ turns, t.result.isOk = true
  ended : ∀ i access, (i, access) ∈ turns.map (fun t => (t.call, t.access)) ↔
    ∃ id, r.progress i = .ended access (.ok id)

omit [DecidableEq ι] in
/-- Calls whose mods are there find them one after the other. -/
theorem exists_found (calls : List (ι × Access))
    (there : ∀ p ∈ calls, b.layout.hasTables = true ∧ nameOf p.1 ∈ b.modNames) :
    ∃ turns, Serial (fun i => Action.ensureMod (nameOf i) (remoteOf i)) b turns b ∧
      turns.map (fun t => (t.call, t.access)) = calls ∧ ∀ t ∈ turns, t.result.isOk = true := by
  induction calls with
  | nil => exact ⟨[], .done b, rfl, by simp⟩
  | cons p rest ih =>
    obtain ⟨⟨tables, known⟩, others⟩ := List.forall_mem_cons.mp there
    obtain ⟨turns, serial, made, succeed⟩ := ih others
    obtain ⟨m, hm⟩ := exists_mod?_iff.mpr known
    have ends : (Action.ensureMod (nameOf p.1) (remoteOf p.1)).Ends p.2 b m.id b :=
      Action.ends_ensureMod_iff.mpr ⟨tables, .inl ⟨m, hm, rfl, rfl⟩⟩
    refine ⟨⟨p.1, p.2, .ok m.id⟩ :: turns, .turn ends.1 (ends.2.symm ▸ serial), ?_, ?_⟩
    · rw [List.map_cons, made]
    · exact List.forall_mem_cons.mpr ⟨rfl, succeed⟩

/-- Where every name that they make is linked once, the calls that ended well are made in turns: by
those that make the mods first, and then by those that find them. -/
theorem Accounted.exists_linksInTurns (h : Accounted nameOf remoteOf a r) (ha : a.Consistent)
    (once : a.LinkedOnce r.archive) {succeeded : List (ι × Access)}
    (distinct : (succeeded.map (·.1)).Nodup)
    (mem : ∀ p, p ∈ succeeded ↔ ∃ id, r.progress p.1 = .ended p.2 (.ok id)) :
    ∃ turns, r.LinksInTurns nameOf remoteOf a turns := by
  obtain ⟨writes, written, single, wrote⟩ := h.writes
  obtain ⟨turns, b, serial, sublist, succeed, mirrors⟩ :=
    written.exists_mirroredBy ha (List.Subset.refl _) once
  let made := turns.map fun t => (t.call, t.access)
  have calls : made.map (·.1) = turns.map (·.call) := List.map_map
  let rest := succeeded.filter fun p => decide (p.1 ∉ made.map (·.1))
  -- In the end no name waits for a link, so the mirror has all mods.
  have there : ∀ p ∈ rest, b.layout.hasTables = true ∧ nameOf p.1 ∈ b.modNames := by
    intro p hp
    obtain ⟨id, ended⟩ := (mem p).mp (List.mem_of_mem_filter hp)
    obtain ⟨tables, m, found, -⟩ := h.ids _ _ _ ended
    refine ⟨?_, (mirrors.names _).mpr ⟨exists_mod?_iff.mp ⟨m, found⟩, ?_⟩⟩
    · rw [mirrors.layout, written.frame.1]
      exact tables
    · rintro ⟨-, ⟨x, hx⟩, none⟩
      exact none x hx
  obtain ⟨hits, serial', found, succeed'⟩ := exists_found rest there
  refine ⟨turns ++ hits, ⟨b, serial.append serial', fun l => by rw [mirrors.links]⟩, ?_, ?_, ?_⟩
  · have found' : hits.map (·.call) = rest.map (·.1) := by
      rw [← found, List.map_map]
      rfl
    rw [List.map_append, ← calls, found']
    refine List.nodup_append.mpr ⟨(sublist.map _).nodup single,
      (List.filter_sublist.map _).nodup distinct, ?_⟩
    rintro i hi _ hj rfl
    obtain ⟨p, hp, rfl⟩ := List.mem_map.mp hj
    exact absurd hi (by simpa using (List.mem_filter.mp hp).2)
  · intro t ht
    exact (List.mem_append.mp ht).elim (succeed t) (succeed' t)
  · intro i access
    rw [List.map_append, found, List.mem_append]
    constructor
    · rintro (early | late)
      · exact wrote _ (sublist.subset early)
      · exact (mem _).mp (List.mem_of_mem_filter late)
    · rintro ⟨id, ended⟩
      by_cases early : i ∈ made.map (·.1)
      · obtain ⟨p, hp, rfl⟩ := List.mem_map.mp early
        obtain ⟨id', ended'⟩ := wrote p (sublist.subset hp)
        cases ended.symm.trans ended'
        exact .inl hp
      · exact .inr (List.mem_filter.mpr ⟨(mem _).mpr ⟨id, ended⟩, by simpa using early⟩)

/-- Calls that make sure of mods and race, by any number of connections and with their steps in any
order. There is one mod of a name: of every name that was there, and of every name that a call
ended well for. All these calls are given its id, and a call ends well once it took both steps, if
nothing stands in its way. Links stay, and a new one is of a name that was new and of a call for it
that ended well. And the calls that ended well come to the same links one after the other, in some
order, exactly if no name that was new is linked twice. -/
theorem mods_serializable_iff (nameOf : ι → String) (remoteOf : ι → Option String)
    (ha : a.Consistent) (schedule : List (ι × Access)) :
    let r := (Race.start a).run (fun i => Attempt.ensureMod (nameOf i) (remoteOf i)) schedule
    r.archive.mods.Unique (·.name) ∧
    (∀ name, name ∈ r.archive.modNames ↔ name ∈ a.modNames ∨
      ∃ i access id, nameOf i = name ∧ r.progress i = .ended access (.ok id)) ∧
    (∀ i access id, r.progress i = .ended access (.ok id) →
      ∃ m, r.archive.mod? (nameOf i) = some m ∧ m.id = id) ∧
    (a.layout.hasTables = true → a.rules = [] → (∀ s ∈ schedule, s.2.CanWrite) →
      ∀ i, 2 ≤ schedule.countP (·.1 = i) →
        ∃ access id, r.progress i = .ended access (.ok id)) ∧
    a.links <+: r.archive.links ∧
    (∀ l ∈ r.archive.links, l ∈ a.links ∨ l.1 ∉ a.modNames ∧
      ∃ i access id, nameOf i = l.1 ∧ remoteOf i = some l.2 ∧ Text.allBlank l.2 = false ∧
        r.progress i = .ended access (.ok id)) ∧
    ((∃ turns, r.LinksInTurns nameOf remoteOf a turns) ↔ a.LinkedOnce r.archive) := by
  intro r
  have accounted := Accounted.run ha schedule (.start nameOf remoteOf a)
  obtain ⟨writes, written, -, wrote⟩ := accounted.writes
  obtain ⟨kept, linked⟩ := written.links_cases ha
  refine ⟨(written.isConsistent ha).modNames, fun name => ⟨fun there => ?_, ?_⟩, ?_, ?_, kept,
    fun l hl => ?_, ?_, fun once => ?_⟩
  · obtain old | ⟨p, hp, own⟩ := written.mem_modNames_iff.mp there
    · exact .inl old
    · obtain ⟨id, ended⟩ := wrote p hp
      exact .inr ⟨p.1, p.2, id, own, ended⟩
  · rintro (old | ⟨i, access, id, rfl, ended⟩)
    · exact written.mem_modNames_iff.mpr (.inl old)
    · obtain ⟨-, m, found, -⟩ := accounted.ids i access id ended
      exact exists_mod?_iff.mp ⟨m, found⟩
  · exact fun i access id ended => (accounted.ids i access id ended).2
  · intro tables rules free i steps
    exact exists_ended_of_steps schedule tables rules free nofun steps
  · obtain old | ⟨new, p, hp, name, remote, shown⟩ := linked l hl
    · exact .inl old
    · obtain ⟨id, ended⟩ := wrote p hp
      exact .inr ⟨new, p.1, p.2, id, name, remote, shown, ended⟩
  · rintro ⟨turns, ⟨b, serial, same⟩, -⟩ name new x y hx hy
    exact serial.linkedOnce ha name new x y ((same _).mpr hx) ((same _).mpr hy)
  · obtain ⟨succeeded, distinct, mem⟩ := exists_succeeded
      (fun i => Attempt.ensureMod (nameOf i) (remoteOf i)) a schedule
    exact accounted.exists_linksInTurns ha once distinct mem

/-- Three calls miss their mods, two of them the same one. The first of these has no alias, so that
the links are those of turns, in which the second makes the mod. -/
theorem mods_serializable_iff_of_one_alias :
    ∃ a : Archive, a.Consistent ∧ a.modNames = ["Gamma"] ∧
      let nameOf : Fin 3 → String := fun i => if i = 2 then "Beta" else "Alpha"
      let remoteOf : Fin 3 → Option String := fun i => if i = 0 then none else some (toString i)
      let schedule : List (Fin 3 × Access) := [(0, { now := 2 }), (1, { now := 2 }),
        (2, { now := 2 }), (0, { now := 3 }), (1, { now := 4 }), (2, { now := 5 })]
      let r := (Race.start a).run (fun i => Attempt.ensureMod (nameOf i) (remoteOf i)) schedule
      r.archive.mods.Unique (·.name) ∧
        r.progress 0 = .ended { now := 3 } (.ok 2) ∧ r.progress 1 = .ended { now := 4 } (.ok 2) ∧
        r.archive.links = [("Gamma", "7"), ("Alpha", "1"), ("Beta", "2")] ∧
        ∃ turns, r.LinksInTurns nameOf remoteOf a turns := by
  let s : Store := { settings := {} }
  let nameOf : Fin 3 → String := fun i => if i = 2 then "Beta" else "Alpha"
  let remoteOf : Fin 3 → Option String := fun i => if i = 0 then none else some (toString i)
  let schedule : List (Fin 3 × Access) := [(0, { now := 2 }), (1, { now := 2 }),
    (2, { now := 2 }), (0, { now := 3 }), (1, { now := 4 }), (2, { now := 5 })]
  let race (a : Archive) : Race (Fin 3) RowId :=
    (Race.start a).run (fun i => Attempt.ensureMod (nameOf i) (remoteOf i)) schedule
  obtain ⟨a, found, names, first, second, links⟩ :
      ∃ a ∈ (s.operateAll [.ensureMod "Gamma" (some "7")]).archive? 0, a.modNames = ["Gamma"] ∧
        (race a).progress 0 = .ended { now := 3 } (.ok 2) ∧
        (race a).progress 1 = .ended { now := 4 } (.ok 2) ∧
        (race a).archive.links = [("Gamma", "7"), ("Alpha", "1"), ("Beta", "2")] := by
    decide +kernel
  have consistent : a.Consistent := Archive.Reached.isConsistent
    ⟨_, 0, s.reached_operateAll [.ensureMod "Gamma" (some "7")], found⟩
  obtain ⟨unique, -, -, -, -, -, turns⟩ :=
    mods_serializable_iff nameOf remoteOf consistent schedule
  have once : a.LinkedOnce (race a).archive := .of_nodup (by rw [links]; decide)
  exact ⟨a, consistent, names, unique, first, second, links, turns.mpr once⟩

/-- Two calls miss the same mod, and both link it: no order of calls, one after the other, comes to
these links. -/
theorem mods_linked_twice :
    ∃ a : Archive, a.Consistent ∧
      let remoteOf : Fin 2 → Option String := fun i => some (toString i)
      let schedule : List (Fin 2 × Access) :=
        [(0, { now := 2 }), (1, { now := 2 }), (0, { now := 3 }), (1, { now := 4 })]
      let r := (Race.start a).run (fun i => Attempt.ensureMod "Alpha" (remoteOf i)) schedule
      r.progress 0 = .ended { now := 3 } (.ok 1) ∧ r.progress 1 = .ended { now := 4 } (.ok 1) ∧
        r.archive.links = [("Alpha", "0"), ("Alpha", "1")] ∧
        ∀ turns b, Serial (fun i => Action.ensureMod "Alpha" (remoteOf i)) a turns b →
          ¬ ∀ l, l ∈ b.links ↔ l ∈ r.archive.links := by
  let s : Store := { settings := {} }
  let remoteOf : Fin 2 → Option String := fun i => some (toString i)
  let schedule : List (Fin 2 × Access) :=
    [(0, { now := 2 }), (1, { now := 2 }), (0, { now := 3 }), (1, { now := 4 })]
  let race (a : Archive) : Race (Fin 2) RowId :=
    (Race.start a).run (fun i => Attempt.ensureMod "Alpha" (remoteOf i)) schedule
  obtain ⟨a, found, names, first, second, links⟩ :
      ∃ a ∈ (s.operateAll [.acceptInserts]).archive? 0, a.modNames = [] ∧
        (race a).progress 0 = .ended { now := 3 } (.ok 1) ∧
        (race a).progress 1 = .ended { now := 4 } (.ok 1) ∧
        (race a).archive.links = [("Alpha", "0"), ("Alpha", "1")] := by
    decide +kernel
  have consistent : a.Consistent :=
    Archive.Reached.isConsistent ⟨_, 0, s.reached_operateAll [.acceptInserts], found⟩
  refine ⟨a, consistent, first, second, links, fun turns b serial same => ?_⟩
  have linked (x : String) (hx : ("Alpha", x) ∈ [("Alpha", "0"), ("Alpha", "1")]) :
      ("Alpha", x) ∈ b.links := (same _).mpr (links ▸ hx)
  have new : "Alpha" ∉ a.modNames := by simp [names]
  have equal := serial.linkedOnce consistent "Alpha" new "0" "1" (linked _ (by decide))
    (linked _ (by decide))
  exact absurd equal (by decide)

end Race

end LocalizationMemory
