import LocalizationMemory.Archive.Mods
import LocalizationMemory.Archive.Renderings
import LocalizationMemory.Archive.Versions
import LocalizationMemory.Proofs.Archive.Action

/-!
# What the writes take and do

An insert takes place when no rule refuses it and what it refers to is there. Each
lemma here says all that one write needs and all that it leaves, so that nothing else
has to look into the writes. Where all is there that a write refers to, only a rule can
stop it.

## Main definitions

* `Archive.Refuses` — a rule refuses an insert into a table
* `Archive.Stops` — the failures of a write, given that all is there that it refers to

## Main results

* `Archive.insertMod_eq_ok_iff`, `Archive.insertAlias_eq_ok_iff`,
  `Archive.insertVersion_eq_ok_iff`, `Archive.insertEntry_eq_ok_iff`,
  `Archive.putRendering_eq_ok_iff` — the inserts
* `Archive.addMod_eq_ok_iff`, `Archive.addVersion_eq_ok_iff` — the writes made of them
* `Archive.addMod_frame`, `Archive.addVersion_frame` — the tables that making a mod and
  storing a version leave alone
* `Archive.refuses_of_addVersion`, `Archive.refuses_of_putRenderings` — what stops a version
  and a batch of renderings
-/

namespace LocalizationMemory

theorem bind_eq_ok_iff {ε α β : Type} {x : Except ε α} {f : α → Except ε β} {y : β} :
    (x >>= f) = .ok y ↔ ∃ a, x = .ok a ∧ f a = .ok y := by
  cases x <;> simp [bind, Except.bind]

theorem bind_eq_error_iff {ε α β : Type} {x : Except ε α} {f : α → Except ε β} {cause : ε} :
    (x >>= f) = .error cause ↔ x = .error cause ∨ ∃ a, x = .ok a ∧ f a = .error cause := by
  cases x <;> simp [bind, Except.bind]

theorem pure_eq_ok_iff {ε α : Type} {x y : α} : (pure x : Except ε α) = .ok y ↔ y = x := by
  simp [pure, Except.pure, eq_comm (a := y)]

theorem map_eq_ok_iff {ε α β : Type} {x : Except ε α} {f : α → β} {y : β} :
    x.map f = .ok y ↔ ∃ a, x = .ok a ∧ y = f a := by
  cases x <;> simp [Except.map, eq_comm (a := y)]

theorem map_eq_error_iff {ε α β : Type} {x : Except ε α} {f : α → β} {cause : ε} :
    x.map f = .error cause ↔ x = .error cause := by
  cases x <;> simp [Except.map]

theorem eq_ok_of_mem_toOption {ε α : Type} {x : Except ε α} {y : α} (h : y ∈ x.toOption) :
    x = .ok y := by
  cases x with
  | error cause => cases h
  | ok z => exact congrArg Except.ok (Option.some.inj h)

theorem throw_ne_ok {ε α : Type} (cause : ε) (x : α) : (throw cause : Except ε α) ≠ .ok x := by
  simp [throw, throwThe, MonadExceptOf.throw]

namespace Archive

variable {a b : Archive} {now : Millis}

@[simp] theorem accepting_eq_ok_iff {table : TableName} :
    a.accepting table = .ok b ↔ a.refusal? table = none ∧ b = a := by
  rw [accepting]
  cases a.refusal? table with
  | none => simp [eq_comm (a := b)]
  | some fault => simp

/-- Without a rule nothing is refused. -/
theorem refusal?_of_rules (h : a.rules = []) (table : TableName) : a.refusal? table = none := by
  simp [refusal?, h]

/-! ### Mods -/

theorem insertMod_eq_ok_iff {name : String} :
    a.insertMod name now = .ok b ↔ a.refusal? .mods = none ∧
      b = { a with mods := a.mods.addUnless (·.name == name) fun id => ⟨id, name, now⟩ } := by
  simp only [insertMod, bind_eq_ok_iff, accepting_eq_ok_iff, pure_eq_ok_iff]
  constructor
  · rintro ⟨c, ⟨accepted, rfl⟩, rfl⟩
    exact ⟨accepted, rfl⟩
  · rintro ⟨accepted, rfl⟩
    exact ⟨a, ⟨accepted, rfl⟩, rfl⟩

theorem insertAlias_eq_ok_iff {modId : RowId} {remoteId : String} :
    a.insertAlias modId remoteId = .ok b ↔ a.refusal? .modIdentities = none ∧
      b = { a with
        aliases := a.aliases.addUnless (·.remoteId == remoteId)
          fun id => ⟨id, modId, remoteId⟩ } := by
  simp only [insertAlias, bind_eq_ok_iff, accepting_eq_ok_iff, pure_eq_ok_iff]
  constructor
  · rintro ⟨c, ⟨accepted, rfl⟩, rfl⟩
    exact ⟨accepted, rfl⟩
  · rintro ⟨accepted, rfl⟩
    exact ⟨a, ⟨accepted, rfl⟩, rfl⟩

/-- A mod is inserted, then found by its name, and last given its alias, unless that is
blank. -/
theorem addMod_eq_ok_iff {name : String} {remoteId : Option String} {id : RowId} :
    a.addMod name remoteId now = .ok (id, b) ↔
      ∃ c m, a.insertMod name now = .ok c ∧ c.mod? name = some m ∧ id = m.id ∧
        match remoteId.filter (!Text.allBlank ·) with
        | none => b = c
        | some remoteId => c.insertAlias m.id remoteId = .ok b := by
  simp only [addMod, bind_eq_ok_iff]
  apply exists_congr
  intro c
  cases found : c.mod? name with
  | none => simp [throw_ne_ok]
  | some m =>
    cases remoteId.filter (!Text.allBlank ·) with
    | none => simp [pure_eq_ok_iff]
    | some remoteId =>
      simp only [bind_eq_ok_iff, pure_eq_ok_iff, Prod.mk.injEq, Option.some.injEq]
      constructor
      · rintro ⟨inserted, d, named, rfl, rfl⟩
        exact ⟨m, inserted, rfl, rfl, named⟩
      · rintro ⟨_, inserted, rfl, rfl, named⟩
        exact ⟨inserted, b, named, rfl, rfl⟩

/-- Making a mod changes nothing but mods and aliases. -/
theorem addMod_frame {name : String} {remoteId : Option String} {id : RowId}
    (hb : a.addMod name remoteId now = .ok (id, b)) :
    b = { a with mods := b.mods, aliases := b.aliases } := by
  obtain ⟨c, m, hc, -, -, last⟩ := addMod_eq_ok_iff.mp hb
  obtain ⟨-, rfl⟩ := insertMod_eq_ok_iff.mp hc
  split at last
  · rw [last]
  · obtain ⟨-, rfl⟩ := insertAlias_eq_ok_iff.mp last
    rfl

/-! ### Versions -/

theorem insertVersion_eq_ok_iff {modId : RowId} {hash : String} :
    a.insertVersion modId hash now = .ok b ↔ a.refusal? .sourceVersions = none ∧
      a.versionByHash? hash = none ∧ (∃ m ∈ a.mods.rows, m.id = modId) ∧
      b = { a with versions := a.versions.add fun id => ⟨id, modId, hash, now⟩ } := by
  simp only [insertVersion, bind_eq_ok_iff, accepting_eq_ok_iff]
  constructor
  · rintro ⟨c, ⟨accepted, rfl⟩, h⟩
    cases known : c.versionByHash? hash with
    | some v => simp [known, bind_eq_ok_iff, throw_ne_ok] at h
    | none =>
      cases present : c.mods.rows.any (·.id == modId) with
      | false => simp [known, present, throw_ne_ok] at h
      | true =>
        refine ⟨accepted, rfl, by simpa using present, ?_⟩
        simpa [known, present, pure_eq_ok_iff] using h
  · rintro ⟨accepted, known, present, rfl⟩
    have present' : a.mods.rows.any (·.id == modId) = true := by simpa using present
    refine ⟨a, ⟨accepted, rfl⟩, ?_⟩
    simp [known, present', pure_eq_ok_iff]

theorem insertEntry_eq_ok_iff {versionId : RowId} {line : SourceLine} :
    a.insertEntry versionId line = .ok b ↔ a.refusal? .sourceEntries = none ∧
      b = { a with
        entries := a.entries.addUnless (inTheWay a.layout versionId line)
          fun id => ⟨id, versionId, line.key, line.text, some line.file⟩ } := by
  simp only [insertEntry, bind_eq_ok_iff, accepting_eq_ok_iff, pure_eq_ok_iff]
  constructor
  · rintro ⟨c, ⟨accepted, rfl⟩, rfl⟩
    exact ⟨accepted, rfl⟩
  · rintro ⟨accepted, rfl⟩
    exact ⟨a, ⟨accepted, rfl⟩, rfl⟩

@[simp] theorem insertEntries_nil_eq_ok_iff {versionId : RowId} :
    insertEntries versionId [] a = .ok b ↔ b = a := by
  simp [insertEntries, eq_comm (a := b)]

theorem insertEntries_cons_eq_ok_iff {versionId : RowId} {line : SourceLine}
    {r : List SourceLine} :
    insertEntries versionId (line :: r) a = .ok b ↔
      ∃ c, a.insertEntry versionId line = .ok c ∧ insertEntries versionId r c = .ok b := by
  rw [insertEntries, bind_eq_ok_iff]

/-- Storing entries touches no other table. -/
theorem insertEntries_frame {versionId : RowId} {lines : List SourceLine} {a : Archive}
    (hb : insertEntries versionId lines a = .ok b) : b = { a with entries := b.entries } := by
  induction lines generalizing a with
  | nil => rw [insertEntries_nil_eq_ok_iff.mp hb]
  | cons line r ih =>
    obtain ⟨c, hc, hb⟩ := insertEntries_cons_eq_ok_iff.mp hb
    obtain ⟨-, rfl⟩ := insertEntry_eq_ok_iff.mp hc
    have frame := ih hb
    exact frame

/-- A version is inserted, then its entries, and last its mod is touched. -/
theorem addVersion_eq_ok_iff {modId : RowId} {files : List SourceFile} {s : Snapshot} :
    a.addVersion modId files now = .ok (s, b) ↔
      ∃ c d, a.insertVersion modId (snapshotHash files) now = .ok c ∧
        c.layout.hasFilePaths = true ∧
        insertEntries c.versions.lastId (sourceLines files) c = .ok d ∧
        s = ⟨c.versions.lastId, true, d.entries.rows.length - c.entries.rows.length⟩ ∧
        b = d.touchMod modId now := by
  simp only [addVersion, bind_eq_ok_iff]
  apply exists_congr
  intro c
  cases c.layout.hasFilePaths with
  | false => simp [throw_ne_ok]
  | true =>
    simp only [if_true, bind_eq_ok_iff, pure_eq_ok_iff, Prod.mk.injEq, true_and,
      exists_and_left]

/-- Storing a version touches neither aliases nor renderings. -/
theorem addVersion_frame {modId : RowId} {files : List SourceFile} {s : Snapshot}
    (hb : a.addVersion modId files now = .ok (s, b)) :
    b = { a with mods := b.mods, versions := b.versions, entries := b.entries } := by
  obtain ⟨c, d, hc, -, hd, -, rfl⟩ := addVersion_eq_ok_iff.mp hb
  obtain ⟨-, -, -, rfl⟩ := insertVersion_eq_ok_iff.mp hc
  rw [insertEntries_frame hd]
  rfl

/-! ### Renderings -/

theorem putRendering_eq_ok_iff {language : String} {row : EntryRendering} :
    a.putRendering language now row = .ok b ↔ a.refusal? .translatedEntries = none ∧
      (∃ e ∈ a.entries.rows, e.id = row.1) ∧
      b = { a with
        renderings := a.renderings.upsert (translates row.1 language)
          ({ · with text := row.2, translatedAt := now })
          fun id => ⟨id, row.1, language, row.2, now⟩ } := by
  simp only [putRendering, bind_eq_ok_iff, accepting_eq_ok_iff]
  constructor
  · rintro ⟨c, ⟨accepted, rfl⟩, h⟩
    cases present : c.entries.rows.any (·.id == row.1) with
    | false => simp [present, throw_ne_ok] at h
    | true =>
      rw [present, if_pos rfl, pure_eq_ok_iff] at h
      exact ⟨accepted, by simpa using present, h⟩
  · rintro ⟨accepted, present, rfl⟩
    have present' : a.entries.rows.any (·.id == row.1) = true := by simpa using present
    refine ⟨a, ⟨accepted, rfl⟩, ?_⟩
    simp [present', pure_eq_ok_iff]

@[simp] theorem putRenderings_nil_eq_ok_iff {language : String} :
    putRenderings language now [] a = .ok b ↔ b = a := by
  simp [putRenderings, eq_comm (a := b)]

theorem putRenderings_cons_eq_ok_iff {language : String} {row : EntryRendering}
    {r : List EntryRendering} :
    putRenderings language now (row :: r) a = .ok b ↔
      ∃ c, a.putRendering language now row = .ok c ∧ putRenderings language now r c = .ok b := by
  rw [putRenderings, bind_eq_ok_iff]

/-! ### What stops them -/

/-- A rule refuses an insert into a table with this fault. -/
def Refuses (a : Archive) (table : TableName) (fault : DatabaseFault) : Prop :=
  ∃ r ∈ a.rules, r.table = table ∧ fault = .refused r.text

/-- A write to these tables fails so: it is hindered, or a rule refuses one of its inserts. -/
def Stops (a : Archive) (access : Access) (tables : List TableName) (failure : Failure) : Prop :=
  access.Hinders failure ∨
    ∃ table ∈ tables, ∃ fault, a.Refuses table fault ∧ failure = .database fault

theorem Stops.congr {access : Access} {tables : List TableName} {failure : Failure}
    (stops : a.Stops access tables failure) (rules : b.rules = a.rules) :
    b.Stops access tables failure := by
  unfold Stops Refuses
  rw [rules]
  exact stops

theorem Stops.mono {access : Access} {tables more : List TableName} {failure : Failure}
    (stops : a.Stops access tables failure) (within : tables ⊆ more) :
    a.Stops access more failure :=
  stops.imp_right fun ⟨table, mem, refused⟩ => ⟨table, within mem, refused⟩

/-- A write that is not hindered is stopped by a rule. -/
theorem Stops.refused {access : Access} {tables : List TableName} {failure : Failure}
    (stops : a.Stops access tables failure) (free : access.CanWrite) :
    ∃ table ∈ tables, ∃ fault, a.Refuses table fault ∧ failure = .database fault :=
  stops.resolve_left free.not_hinders

variable {fault : DatabaseFault}

theorem refuses_of_accepting {table : TableName} (h : a.accepting table = .error fault) :
    a.Refuses table fault := by
  rw [accepting] at h
  cases hr : a.refusal? table with
  | none => simp [hr] at h
  | some cause =>
    obtain rfl : cause = fault := by simpa [hr] using h
    obtain ⟨r, found, rfl⟩ := Option.map_eq_some_iff.mp hr
    have applies := List.find?_some found
    simp only [Bool.and_eq_true, decide_eq_true_eq] at applies
    exact ⟨r, List.mem_of_find?_eq_some found, applies.1, rfl⟩

theorem refuses_of_insertVersion {modId : RowId} {hash : String}
    (new : a.versionByHash? hash = none) (present : ∃ m ∈ a.mods.rows, m.id = modId)
    (h : a.insertVersion modId hash now = .error fault) : a.Refuses .sourceVersions fault := by
  rw [insertVersion, bind_eq_error_iff] at h
  obtain refused | ⟨c, accepted, h⟩ := h
  · exact refuses_of_accepting refused
  · obtain ⟨-, rfl⟩ := accepting_eq_ok_iff.mp accepted
    have present' : c.mods.rows.any (·.id == modId) = true := by simpa using present
    simp [new, present', pure, Except.pure] at h

theorem refuses_of_insertEntries {versionId : RowId} {lines : List SourceLine} {a : Archive}
    (h : insertEntries versionId lines a = .error fault) : a.Refuses .sourceEntries fault := by
  induction lines generalizing a with
  | nil => simp [insertEntries] at h
  | cons line r ih =>
    rw [insertEntries, bind_eq_error_iff] at h
    obtain refused | ⟨c, hc, h⟩ := h
    · rw [insertEntry, bind_eq_error_iff] at refused
      obtain refused | ⟨c, -, h⟩ := refused
      · exact refuses_of_accepting refused
      · simp [pure, Except.pure] at h
    · -- An insert leaves the rules as they are.
      obtain ⟨-, rfl⟩ := insertEntry_eq_ok_iff.mp hc
      have refused := ih h
      exact refused

/-- If the mod is there and the hash is new, only a rule stops a version from being stored. -/
theorem refuses_of_addVersion {modId : RowId} {files : List SourceFile}
    (new : a.versionByHash? (snapshotHash files) = none)
    (present : ∃ m ∈ a.mods.rows, m.id = modId) (paths : a.layout.hasFilePaths = true)
    (h : a.addVersion modId files now = .error fault) :
    a.Refuses .sourceVersions fault ∨ a.Refuses .sourceEntries fault := by
  rw [addVersion, bind_eq_error_iff] at h
  obtain refused | ⟨c, hc, h⟩ := h
  · exact .inl (refuses_of_insertVersion new present refused)
  · obtain ⟨-, -, -, rfl⟩ := insertVersion_eq_ok_iff.mp hc
    rw [if_pos paths, bind_eq_error_iff] at h
    obtain refused | ⟨d, -, h⟩ := h
    · have entry := refuses_of_insertEntries refused
      exact .inr entry
    · simp [pure, Except.pure] at h

/-- If the entries are there, only a rule stops a batch of their renderings. -/
theorem refuses_of_putRenderings {language : String} {rows : List EntryRendering} {a : Archive}
    (present : ∀ row ∈ rows, ∃ e ∈ a.entries.rows, e.id = row.1)
    (h : putRenderings language now rows a = .error fault) :
    a.Refuses .translatedEntries fault := by
  induction rows generalizing a with
  | nil => simp [putRenderings] at h
  | cons row r ih =>
    obtain ⟨first, others⟩ := List.forall_mem_cons.mp present
    rw [putRenderings, bind_eq_error_iff] at h
    obtain refused | ⟨c, hc, h⟩ := h
    · rw [putRendering, bind_eq_error_iff] at refused
      obtain refused | ⟨c, accepted, h⟩ := refused
      · exact refuses_of_accepting refused
      · obtain ⟨-, rfl⟩ := accepting_eq_ok_iff.mp accepted
        have first' : c.entries.rows.any (·.id == row.1) = true := by simpa using first
        simp [first', pure, Except.pure] at h
    · obtain ⟨-, -, left⟩ := putRendering_eq_ok_iff.mp hc
      have refused : c.Refuses .translatedEntries fault := by
        refine ih ?_ h
        rw [left]
        exact others
      rw [left] at refused
      exact refused

end Archive

end LocalizationMemory
