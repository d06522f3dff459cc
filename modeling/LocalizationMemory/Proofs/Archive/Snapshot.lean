import LocalizationMemory.Proofs.Archive.History
import LocalizationMemory.Proofs.Source

/-!
# What making a mod and storing a version leave

A mod that is not there is made, and can be found by its name afterwards; versions,
entries and renderings are as before. A version whose hash is new becomes the newest of
its mod at a time that nothing in the archive is after. Of proper files every line
becomes an entry of it, under a new id and in the order of the lines.

## Main definitions

* `distinctLines` — the lines that become entries: the first of every key of a file
* `Archive.NewEntries` — the entries that lines become in a version
* `Archive.AddedMod`, `Archive.AddedVersion` — how an archive differs by a mod or a version

## Main results

* `Action.ends_ensureNamedMod_iff`, `Action.ends_snapshotChecked_iff` — how the two
  actions end
* `Action.fails_snapshotChecked` — why a version is not stored
* `Archive.addedMod_of_addMod`, `Archive.addedVersion_of_addVersion` — what the two
  writes leave
* `Archive.AddedVersion.isNewest`, `Archive.AddedVersion.map_content_entriesOfFile` — the
  new version, and its files
* `Archive.exists_addMod`, `Archive.exists_addVersion` — without a rule both take place
-/

namespace LocalizationMemory

namespace Archive

variable {a b : Archive} {now : Millis} {modId : RowId} {files : List SourceFile}

/-! ### Mods -/

/-- An archive differs from another by a mod, and maybe an alias. -/
structure AddedMod (a : Archive) (name : String) (now : Millis) (id : RowId) (b : Archive) :
    Prop where
  mods : b.mods.rows = a.mods.rows ++ [⟨id, name, now⟩]
  frame : b = { a with mods := b.mods, aliases := b.aliases }

theorem mod?_insertMod {name : String} (new : a.mod? name = none)
    (hb : a.insertMod name now = .ok b) :
    b.mods.rows = a.mods.rows ++ [⟨a.mods.nextId, name, now⟩] ∧
      b.mod? name = some ⟨a.mods.nextId, name, now⟩ := by
  obtain ⟨-, rfl⟩ := insertMod_eq_ok_iff.mp hb
  have free : ¬ a.mods.rows.any (·.name == name) = true := by
    simpa [mod?] using new
  have rows : (a.mods.addUnless (·.name == name) fun id => ⟨id, name, now⟩).rows =
      a.mods.rows ++ [⟨a.mods.nextId, name, now⟩] := by
    rw [Table.rows_addUnless, if_neg free]
  refine ⟨rows, ?_⟩
  rw [mod?] at new ⊢
  simp [rows, new]

/-- Making a mod that is not there adds it, and leaves versions, entries and renderings. -/
theorem addedMod_of_addMod {name : String} {remoteId : Option String} {id : RowId}
    (new : a.mod? name = none) (hb : a.addMod name remoteId now = .ok (id, b)) :
    a.AddedMod name now id b := by
  obtain ⟨c, m, hc, found, rfl, last⟩ := addMod_eq_ok_iff.mp hb
  obtain ⟨rows, found'⟩ := mod?_insertMod new hc
  rw [found] at found'
  cases found'
  obtain ⟨-, rfl⟩ := insertMod_eq_ok_iff.mp hc
  split at last
  · rw [last]
    exact ⟨rows, rfl⟩
  · obtain ⟨-, rfl⟩ := insertAlias_eq_ok_iff.mp last
    exact ⟨rows, rfl⟩

/-- Without a rule a mod can be made. -/
theorem exists_addMod (now : Millis) (rules : a.rules = []) {name : String} (new : a.mod? name = none)
    (remoteId : Option String) : ∃ id b, a.addMod name remoteId now = .ok (id, b) := by
  obtain ⟨c, hc⟩ : ∃ c, a.insertMod name now = .ok c :=
    ⟨_, insertMod_eq_ok_iff.mpr ⟨refusal?_of_rules rules _, rfl⟩⟩
  have found := (mod?_insertMod new hc).2
  have kept : c.rules = [] := by
    obtain ⟨-, rfl⟩ := insertMod_eq_ok_iff.mp hc
    exact rules
  cases hr : remoteId.filter (!Text.allBlank ·) with
  | none => exact ⟨_, c, addMod_eq_ok_iff.mpr ⟨c, _, hc, found, rfl, by simp [hr]⟩⟩
  | some remoteId' =>
    obtain ⟨b, hb⟩ : ∃ b, c.insertAlias a.mods.nextId remoteId' = .ok b :=
      ⟨_, insertAlias_eq_ok_iff.mpr ⟨refusal?_of_rules kept _, rfl⟩⟩
    exact ⟨_, b, addMod_eq_ok_iff.mpr ⟨c, _, hc, found, rfl, by simp [hr, hb]⟩⟩

namespace AddedMod

variable {name : String} {id : RowId}

theorem mod? (added : a.AddedMod name now id b) (new : a.mod? name = none) :
    b.mod? name = some ⟨id, name, now⟩ := by
  rw [Archive.mod?] at new ⊢
  simp [added.mods, new]

/-- Mods of other names are as they were. -/
theorem mod?_of_ne (added : a.AddedMod name now id b) {other : String} (differs : other ≠ name) :
    b.mod? other = a.mod? other := by
  rw [Archive.mod?, Archive.mod?, added.mods, List.find?_append]
  simp [differs.symm]

end AddedMod

/-- The time of a mod plays no part in finding its id by its name. -/
theorem map_id_mod?_of_touched {modId : RowId}
    (touched : b.mods = a.mods.updateWhere (·.id == modId) ({ · with lastUpdated := now }))
    (name : String) : (b.mod? name).map (·.id) = (a.mod? name).map (·.id) := by
  simp only [Archive.mod?, touched, Table.updateWhere, List.find?_map, Option.map_map]
  -- A touch changes a time alone, so the search by name passes the same mods.
  have search : ((fun m : ModRow => m.name == name) ∘ fun m =>
      if (m.id == modId) = true then { m with lastUpdated := now } else m) =
        fun m => m.name == name := by
    funext m
    simp only [Function.comp_apply]
    split <;> rfl
  rw [search]
  refine congrFun (congrArg _ ?_) _
  funext m
  simp only [Function.comp_apply]
  split <;> rfl

/-! ### Entries -/

/-- A layout takes two lines of a version for one: both have the key, and the file where files
count. -/
def sameKey (layout : Layout) (line l : SourceLine) : Bool :=
  l.key == line.key && (layout.keysPerVersion || l.file == line.file)

/-- Lines of one key are of one key with the same lines. -/
theorem sameKey_of_sameKey {layout : Layout} {line l l' : SourceLine}
    (same : sameKey layout l l' = true) : sameKey layout line l' = sameKey layout line l := by
  obtain ⟨key, file⟩ : l'.key = l.key ∧ (layout.keysPerVersion = true ∨ l'.file = l.file) := by
    simpa [sameKey] using same
  unfold sameKey
  obtain perVersion | file := file
  · simp only [key, perVersion, Bool.true_or]
  · simp only [key, file]

/-- The first line of every key that a layout tells apart. -/
def firstLines (layout : Layout) : List SourceLine → List SourceLine
  | [] => []
  | line :: r => line :: (firstLines layout r).filter (!sameKey layout line ·)

/-- The first line of every key of a file: the lines that become entries. -/
def distinctLines : List SourceLine → List SourceLine
  | [] => []
  | line :: r => line :: (distinctLines r).filter fun l => !(l.file == line.file && l.key == line.key)

theorem firstLines_cons (layout : Layout) (line : SourceLine) (r : List SourceLine) :
    firstLines layout (line :: r) =
      line :: (firstLines layout r).filter (!sameKey layout line ·) := rfl

theorem distinctLines_cons (line : SourceLine) (r : List SourceLine) :
    distinctLines (line :: r) =
      line :: (distinctLines r).filter fun l => !(l.file == line.file && l.key == line.key) := rfl

theorem sameKey_current (line l : SourceLine) :
    sameKey .current line l = (l.file == line.file && l.key == line.key) :=
  Bool.and_comm _ _

theorem firstLines_current (lines : List SourceLine) :
    firstLines .current lines = distinctLines lines := by
  induction lines with
  | nil => rfl
  | cons line r ih => simp only [firstLines_cons, distinctLines_cons, ih, sameKey_current]

theorem firstLines_sublist (layout : Layout) (lines : List SourceLine) :
    (firstLines layout lines).Sublist lines := by
  induction lines with
  | nil => exact .slnil
  | cons line r ih => exact (List.filter_sublist.trans ih).cons_cons line

theorem distinctLines_sublist (lines : List SourceLine) : (distinctLines lines).Sublist lines :=
  firstLines_current lines ▸ firstLines_sublist .current lines

/-- Leaving out all lines of some keys comes to the same before and after. -/
theorem firstLines_filter {layout : Layout} {p : SourceLine → Bool}
    (ofKeys : ∀ l l', sameKey layout l l' = true → p l' = p l) (lines : List SourceLine) :
    firstLines layout (lines.filter p) = (firstLines layout lines).filter p := by
  induction lines with
  | nil => rfl
  | cons line r ih =>
    cases hp : p line with
    | true =>
      rw [List.filter_cons_of_pos hp, firstLines_cons, firstLines_cons,
        List.filter_cons_of_pos hp, ih, List.filter_filter, List.filter_filter]
      congr 2
      funext l
      exact Bool.and_comm _ _
    | false =>
      rw [List.filter_cons_of_neg (by simp [hp]), firstLines_cons,
        List.filter_cons_of_neg (by simp [hp]), ih, List.filter_filter]
      -- A line of the same key as the one that is left out is left out as well.
      apply List.filter_congr
      intro l _
      cases same : sameKey layout line l with
      | true => simp [ofKeys line l same, hp]
      | false => simp

theorem distinctLines_filter {p : SourceLine → Bool}
    (ofKeys : ∀ l l', l.file = l'.file → l.key = l'.key → p l = p l') (lines : List SourceLine) :
    distinctLines (lines.filter p) = (distinctLines lines).filter p := by
  rw [← firstLines_current, ← firstLines_current]
  refine firstLines_filter (fun l l' same => ?_) lines
  simp only [sameKey_current, Bool.and_eq_true, beq_iff_eq] at same
  exact ofKeys l' l same.1 same.2

/-- Lines of different keys are all the first of theirs. -/
theorem firstLines_of_pairwise {layout : Layout} {lines : List SourceLine}
    (distinct : lines.Pairwise fun l l' => sameKey layout l l' = false) :
    firstLines layout lines = lines := by
  induction lines with
  | nil => rfl
  | cons line r ih =>
    obtain ⟨differs, distinct⟩ := List.pairwise_cons.mp distinct
    rw [firstLines_cons, ih distinct]
    refine congrArg _ (List.filter_eq_self.mpr fun l hl => ?_)
    simp [differs l hl]

theorem distinctLines_of_pairwise {lines : List SourceLine}
    (distinct : lines.Pairwise fun l l' => l.file = l'.file → l.key ≠ l'.key) :
    distinctLines lines = lines := by
  rw [← firstLines_current]
  refine firstLines_of_pairwise (distinct.imp fun {l l'} differs => ?_)
  rw [sameKey_current, Bool.eq_false_iff]
  intro same
  obtain ⟨file, key⟩ : l'.file = l.file ∧ l'.key = l.key := by simpa using same
  exact differs file.symm key.symm

theorem head?_distinctLines (lines : List SourceLine) :
    (distinctLines lines).head? = lines.head? := by
  cases lines <;> rfl

/-- The first of the lines whose keys have a property is the first of its key. -/
theorem find?_distinctLines {p : SourceLine → Bool}
    (ofKeys : ∀ l l', l.file = l'.file → l.key = l'.key → p l = p l') (lines : List SourceLine) :
    (distinctLines lines).find? p = lines.find? p := by
  rw [← List.head?_filter, ← List.head?_filter, ← distinctLines_filter ofKeys, head?_distinctLines]

/-- If the entries of a version are lines of files, then those of a file are its lines. -/
theorem map_content_entriesOfFile_of_lines {versionId : RowId} {file : String}
    {lines : List SourceLine}
    (contents : (a.entriesOf versionId).map (·.content) = lines.map (·.content)) :
    (a.entriesOfFile versionId file).map (·.content) =
      (lines.filter (·.file == file)).map (·.content) := by
  have byFile : (lines.map (·.content)).filter (·.1 == some file) =
      (lines.filter (·.file == file)).map (·.content) := by
    rw [List.filter_map]
    congr 2
  rw [← byFile, ← contents, List.filter_map]
  rfl

/-- The entries that lines become in a version, under new ids. -/
structure NewEntries (a : Archive) (versionId : RowId) (lines : List SourceLine)
    (new : List EntryRow) : Prop where
  contents : new.map (·.content) = lines.map (·.content)
  ofVersion : ∀ e ∈ new, e.versionId = versionId
  newIds : ∀ e ∈ new, a.entries.lastId < e.id

/-- The entries of a version that had none are those that its lines became. -/
theorem NewEntries.entriesOf {versionId : RowId} {lines : List SourceLine} {new : List EntryRow}
    (news : a.NewEntries versionId lines new) (rows : b.entries.rows = a.entries.rows ++ new)
    (free : ∀ e ∈ a.entries.rows, e.versionId ≠ versionId) : b.entriesOf versionId = new := by
  have old : a.entries.rows.filter (·.versionId == versionId) = [] := by
    apply List.filter_eq_nil_iff.mpr
    intro e he same
    exact free e he (eq_of_beq same)
  have own : new.filter (·.versionId == versionId) = new :=
    List.filter_eq_self.mpr fun e he => by simp [news.ofVersion e he]
  rw [Archive.entriesOf, rows, List.filter_append, old, own, List.nil_append]

theorem inTheWay_current_iff {versionId : RowId} {line : SourceLine} {e : EntryRow} :
    inTheWay .current versionId line e = true ↔
      e.versionId = versionId ∧ e.key = line.key ∧ e.file = some line.file := by
  simp [inTheWay, Layout.keysPerVersion, and_assoc]

/-- The entry that a line becomes is in the way of the lines of its key, and of no others. -/
theorem inTheWay_of_line (layout : Layout) (id versionId : RowId) (line l : SourceLine) :
    inTheWay layout versionId l ⟨id, versionId, line.key, line.text, some line.file⟩ =
      sameKey layout line l := by
  rw [Bool.eq_iff_iff]
  simp [inTheWay, sameKey, eq_comm (a := line.key), eq_comm (a := line.file)]

/-- Under the rule of a layout no entry of a version is in the way of a line. -/
def isFreeUnder (layout : Layout) (a : Archive) (versionId : RowId) (line : SourceLine) : Bool :=
  !a.entries.rows.any (inTheWay layout versionId line)

/-- No entry of a version is in the way of a line. -/
def isFree (a : Archive) (versionId : RowId) (line : SourceLine) : Bool :=
  !a.entries.rows.any (inTheWay .current versionId line)

/-- Lines of one key are free together. -/
theorem isFreeUnder_of_sameKey {layout : Layout} {line l : SourceLine}
    (same : sameKey layout line l = true) (a : Archive) (versionId : RowId) :
    isFreeUnder layout a versionId l = isFreeUnder layout a versionId line := by
  obtain ⟨key, file⟩ : l.key = line.key ∧ (layout.keysPerVersion = true ∨ l.file = line.file) := by
    simpa [sameKey] using same
  unfold isFreeUnder inTheWay
  obtain perVersion | file := file
  · simp only [key, perVersion, Bool.true_or]
  · simp only [key, file]

/-- Storing a line uses up an id, and the line becomes an entry if none is in its way. -/
theorem insertEntry_cases {layout : Layout} {versionId : RowId} {line : SourceLine} {a c : Archive}
    (is : a.layout = layout) (hc : a.insertEntry versionId line = .ok c) :
    isFreeUnder layout a versionId line = false ∧ c = { a with entries := a.entries.burn } ∨
      isFreeUnder layout a versionId line = true ∧ c = { a with
        entries := a.entries.add fun id => ⟨id, versionId, line.key, line.text, some line.file⟩ } := by
  obtain ⟨-, rfl⟩ := insertEntry_eq_ok_iff.mp hc
  rw [is, Table.addUnless, isFreeUnder]
  by_cases way : a.entries.rows.any (inTheWay layout versionId line) = true
  · exact .inl ⟨by rw [way]; rfl, by rw [if_pos way]⟩
  · exact .inr ⟨by simpa using way, by rw [if_neg way]⟩

/-- Of the lines that no entry is in the way of, the first of every key become entries. -/
theorem exists_newEntries_of_layout {layout : Layout} {versionId : RowId} {lines : List SourceLine}
    {a : Archive} (is : a.layout = layout) (hb : insertEntries versionId lines a = .ok b) :
    ∃ new, a.NewEntries versionId
        (firstLines layout (lines.filter (isFreeUnder layout a versionId))) new ∧
      b.entries.rows = a.entries.rows ++ new := by
  induction lines generalizing a with
  | nil =>
    obtain rfl := insertEntries_nil_eq_ok_iff.mp hb
    exact ⟨[], ⟨rfl, by simp, by simp⟩, by simp⟩
  | cons line r ih =>
    obtain ⟨c, hc, hb⟩ := insertEntries_cons_eq_ok_iff.mp hb
    obtain ⟨free, burnt⟩ | ⟨free, added⟩ := insertEntry_cases is hc
    · obtain ⟨new, news, rows⟩ := ih (a := c) (by rw [burnt]; exact is) hb
      rw [burnt] at news rows
      refine ⟨new, ⟨?_, news.ofVersion, fun e he => ?_⟩, rows⟩
      · rw [List.filter_cons_of_neg (by simp [free])]
        exact news.contents
      · exact Int.lt_trans a.entries.lastId_lt_nextId (news.newIds e he)
    · obtain ⟨new, news, rows⟩ := ih (a := c) (by rw [added]; exact is) hb
      rw [added] at news rows
      let first : EntryRow := ⟨a.entries.nextId, versionId, line.key, line.text, some line.file⟩
      -- The new entry is in the way of the lines of its key, and of no others.
      have others : isFreeUnder layout { a with entries := a.entries.add fun id =>
          ⟨id, versionId, line.key, line.text, some line.file⟩ } versionId = fun l =>
            !sameKey layout line l && isFreeUnder layout a versionId l := by
        funext l
        simp [isFreeUnder, Table.add, inTheWay_of_line, Bool.and_comm]
      have contents := news.contents
      rw [others, ← List.filter_filter, firstLines_filter (p := (!sameKey layout line ·))
        (fun l l' same => by rw [sameKey_of_sameKey same])] at contents
      refine ⟨first :: new, ⟨?_, ?_, ?_⟩, ?_⟩
      · rw [List.filter_cons_of_pos free, firstLines_cons, List.map_cons, List.map_cons, contents]
        rfl
      · exact List.forall_mem_cons.mpr ⟨rfl, news.ofVersion⟩
      · refine List.forall_mem_cons.mpr ⟨a.entries.lastId_lt_nextId, fun e he => ?_⟩
        exact Int.lt_trans a.entries.lastId_lt_nextId (news.newIds e he)
      · rw [rows]
        exact List.append_assoc _ _ _

/-- All lines are free in a version without entries. -/
theorem filter_isFree {versionId : RowId} (none : ∀ e ∈ a.entries.rows, e.versionId ≠ versionId)
    (lines : List SourceLine) : lines.filter (a.isFree versionId) = lines := by
  refine List.filter_eq_self.mpr fun line _ => ?_
  rw [isFree, Bool.not_eq_true', List.any_eq_false]
  intro e he way
  exact none e he (inTheWay_current_iff.mp way).1

/-- Without a rule lines can be stored. -/
theorem exists_insertEntries (versionId : RowId) (lines : List SourceLine) {a : Archive}
    (rules : a.rules = []) : ∃ b, insertEntries versionId lines a = .ok b := by
  induction lines generalizing a with
  | nil => exact ⟨a, rfl⟩
  | cons line r ih =>
    obtain ⟨c, hc⟩ : ∃ c, a.insertEntry versionId line = .ok c :=
      ⟨_, insertEntry_eq_ok_iff.mpr ⟨refusal?_of_rules rules _, rfl⟩⟩
    have kept : c.rules = [] := by
      obtain ⟨-, rfl⟩ := insertEntry_eq_ok_iff.mp hc
      exact rules
    obtain ⟨b, hb⟩ := ih kept
    exact ⟨b, insertEntries_cons_eq_ok_iff.mpr ⟨c, hc, hb⟩⟩

/-! ### Versions -/

/-- An archive differs from another by a version with its entries. -/
structure AddedVersion (a : Archive) (modId : RowId) (files : List SourceFile) (now : Millis)
    (versionId : RowId) (b : Archive) : Prop where
  newId : versionId = a.versions.nextId
  ofMod : modId ∈ a.mods.rows.map (·.id)
  versions : b.versions.rows = a.versions.rows ++ [⟨versionId, modId, snapshotHash files, now⟩]
  entries : ∃ new, a.NewEntries versionId (sourceLines files) new ∧
    b.entries.rows = a.entries.rows ++ new
  frame : b = { a with
    mods := a.mods.updateWhere (·.id == modId) ({ · with lastUpdated := now })
    versions := b.versions
    entries := b.entries }

/-- No entry is of the version to come. -/
theorem Consistent.versionId_ne_nextId (h : a.Consistent) {e : EntryRow}
    (he : e ∈ a.entries.rows) : e.versionId ≠ a.versions.nextId := by
  obtain ⟨v, hv, hid⟩ := List.mem_map.mp (h.versionOfEntry e he)
  have later := h.versions.lt_nextId hv
  rw [← show v.id = e.versionId from hid]
  exact Int.ne_of_lt later

/-- Storing a version adds it, with the first of the lines that no entry is in the way of for every
key that the layout tells apart. -/
theorem exists_newEntries_addVersion_of_layout {layout : Layout} (is : a.layout = layout)
    {s : Snapshot} (hb : a.addVersion modId files now = .ok (s, b)) :
    s.created = true ∧ s.versionId = a.versions.nextId ∧ modId ∈ a.mods.rows.map (·.id) ∧
      b.versions.rows = a.versions.rows ++ [⟨s.versionId, modId, snapshotHash files, now⟩] ∧
      (∃ new, a.NewEntries s.versionId
          (firstLines layout ((sourceLines files).filter
            (isFreeUnder layout a a.versions.nextId))) new ∧
        b.entries.rows = a.entries.rows ++ new ∧ s.entriesWritten = new.length) ∧
      b = { a with
        mods := a.mods.updateWhere (·.id == modId) ({ · with lastUpdated := now })
        versions := b.versions
        entries := b.entries } := by
  obtain ⟨c, d, hc, -, hd, rfl, rfl⟩ := addVersion_eq_ok_iff.mp hb
  obtain ⟨-, -, ⟨m, hm, rfl⟩, hc⟩ := insertVersion_eq_ok_iff.mp hc
  subst hc
  let versions := a.versions.add fun id => ⟨id, m.id, snapshotHash files, now⟩
  obtain ⟨new, news, rows⟩ := exists_newEntries_of_layout (a := { a with versions }) is hd
  have frame := insertEntries_frame hd
  have versions : d.versions = versions := by rw [frame]
  refine ⟨rfl, rfl, List.mem_map_of_mem hm, ?_, ⟨new, ?_, rows, ?_⟩, ?_⟩
  · change d.versions.rows = _
    rw [versions]
    rfl
  · exact ⟨news.contents, news.ofVersion, news.newIds⟩
  · simp [rows]
  · rw [touchMod, frame]

/-- Storing a version adds it, and the first line of every key of its files as its entries. -/
theorem exists_newEntries_addVersion (ha : a.Consistent) {s : Snapshot}
    (hb : a.addVersion modId files now = .ok (s, b)) :
    s.created = true ∧ s.versionId = a.versions.nextId ∧ modId ∈ a.mods.rows.map (·.id) ∧
      b.versions.rows = a.versions.rows ++ [⟨s.versionId, modId, snapshotHash files, now⟩] ∧
      (∃ new, a.NewEntries s.versionId (distinctLines (sourceLines files)) new ∧
        b.entries.rows = a.entries.rows ++ new ∧ s.entriesWritten = new.length) ∧
      b = { a with
        mods := a.mods.updateWhere (·.id == modId) ({ · with lastUpdated := now })
        versions := b.versions
        entries := b.entries } := by
  have paths : a.layout.hasFilePaths = true := by
    obtain ⟨c, d, hc, paths, -⟩ := addVersion_eq_ok_iff.mp hb
    obtain ⟨-, -, -, rfl⟩ := insertVersion_eq_ok_iff.mp hc
    exact paths
  have current : a.layout = .current := by
    refine ha.layout_eq_current ?_
    cases hl : a.layout <;> simp [hl, Layout.hasFilePaths, Layout.hasTables] at paths ⊢
  have free : (sourceLines files).filter (isFreeUnder .current a a.versions.nextId) =
      sourceLines files := filter_isFree (fun _ he => ha.versionId_ne_nextId he) _
  have stored := exists_newEntries_addVersion_of_layout current hb
  rw [free, firstLines_current] at stored
  exact stored

/-- Storing the version of files whose lines are told apart adds it with all of them. -/
theorem addedVersion_of_distinct (ha : a.Consistent) (distinct : DistinctFiles files)
    {s : Snapshot} (hb : a.addVersion modId files now = .ok (s, b)) :
    a.AddedVersion modId files now s.versionId b ∧ s.created = true := by
  obtain ⟨created, newId, ofMod, versions, ⟨new, news, rows, -⟩, frame⟩ :=
    exists_newEntries_addVersion ha hb
  rw [distinctLines_of_pairwise distinct.pairwise_sourceLines] at news
  exact ⟨⟨newId, ofMod, versions, ⟨new, news, rows⟩, frame⟩, created⟩

/-- Storing the version of proper files adds it with all their lines. -/
theorem addedVersion_of_addVersion (ha : a.Consistent) (proper : ProperFiles files)
    {s : Snapshot} (hb : a.addVersion modId files now = .ok (s, b)) :
    a.AddedVersion modId files now s.versionId b ∧ s.created = true :=
  addedVersion_of_distinct ha proper.distinct hb

/-- Without a rule a version of a mod whose hash is new can be stored. -/
theorem exists_addVersion (now : Millis) (rules : a.rules = [])
    (paths : a.layout.hasFilePaths = true)
    (new : a.versionByHash? (snapshotHash files) = none) (ofMod : ∃ m ∈ a.mods.rows, m.id = modId) :
    ∃ s b, a.addVersion modId files now = .ok (s, b) := by
  obtain ⟨c, hc⟩ : ∃ c, a.insertVersion modId (snapshotHash files) now = .ok c :=
    ⟨_, insertVersion_eq_ok_iff.mpr ⟨refusal?_of_rules rules _, new, ofMod, rfl⟩⟩
  have kept : c.rules = [] ∧ c.layout.hasFilePaths = true := by
    obtain ⟨-, -, -, rfl⟩ := insertVersion_eq_ok_iff.mp hc
    exact ⟨rules, paths⟩
  obtain ⟨d, hd⟩ := exists_insertEntries c.versions.lastId (sourceLines files) kept.1
  exact ⟨_, _, addVersion_eq_ok_iff.mpr ⟨c, d, hc, kept.2, hd, rfl, rfl⟩⟩

namespace AddedVersion

variable {versionId : RowId} (added : a.AddedVersion modId files now versionId b)

include added

theorem renderings : b.renderings = a.renderings := by rw [added.frame]

theorem layout : b.layout = a.layout := by rw [added.frame]

theorem rules : b.rules = a.rules := by rw [added.frame]

theorem mem_versions : ⟨versionId, modId, snapshotHash files, now⟩ ∈ b.versions.rows := by
  rw [added.versions]
  exact List.mem_append_right _ List.mem_cons_self

/-- A mod that is touched is found under the same id. -/
theorem map_id_mod? (name : String) : (b.mod? name).map (·.id) = (a.mod? name).map (·.id) :=
  map_id_mod?_of_touched (by rw [added.frame]) name

/-- A version that is stored when nothing is of a later time is the newest of its mod. -/
theorem isNewest (ha : a.Consistent) (past : a.NotAfter now) :
    b.IsNewest modId ⟨versionId, modId, snapshotHash files, now⟩ := by
  refine ⟨added.mem_versions, rfl, fun w hw _ => ?_⟩
  rw [added.versions] at hw
  rcases List.mem_append.mp hw with hw | hw
  · -- What was there is no later, and at the same time the greater id decides.
    have time := past.versions w hw
    have id : w.id < versionId := by
      rw [added.newId]
      exact ha.versions.lt_nextId hw
    simp only [notOlder, decide_eq_true_eq]
    grind
  · rw [List.mem_singleton.mp hw]
    exact notOlder_refl _

/-- The version is found by its hash from now on. -/
theorem versionByHash? (new : a.versionByHash? (snapshotHash files) = none) :
    b.versionByHash? (snapshotHash files) =
      some ⟨versionId, modId, snapshotHash files, now⟩ := by
  rw [Archive.versionByHash?] at new ⊢
  simp [added.versions, new]

/-- No entry of before is of the version, whose id is new. -/
theorem versionId_ne (ha : a.Consistent) {e : EntryRow} (he : e ∈ a.entries.rows) :
    e.versionId ≠ versionId := by
  rw [added.newId]
  exact ha.versionId_ne_nextId he

/-- The entries of the version are lines of its files. -/
theorem exists_line (ha : a.Consistent) {e : EntryRow} (he : e ∈ b.entries.rows)
    (version : e.versionId = versionId) : ∃ line ∈ sourceLines files, e.content = line.content := by
  obtain ⟨new, news, rows⟩ := added.entries
  rw [rows] at he
  rcases List.mem_append.mp he with he | he
  · exact absurd version (added.versionId_ne ha he)
  · have mem : e.content ∈ new.map (·.content) := List.mem_map_of_mem he
    rw [news.contents] at mem
    obtain ⟨line, hline, same⟩ := List.mem_map.mp mem
    exact ⟨line, hline, same.symm⟩

/-- The entries of the version are the lines of its files, in their order. -/
theorem map_content_entriesOf (ha : a.Consistent) :
    (b.entriesOf versionId).map (·.content) = (sourceLines files).map (·.content) := by
  obtain ⟨new, news, rows⟩ := added.entries
  rw [news.entriesOf rows fun e he => added.versionId_ne ha he, news.contents]

/-- The entries of the version under a name are the lines under that name, in their order. -/
theorem map_content_entriesOfFile_filter (ha : a.Consistent) (file : String) :
    (b.entriesOfFile versionId file).map (·.content) =
      ((sourceLines files).filter (·.file == file)).map (·.content) :=
  map_content_entriesOfFile_of_lines (added.map_content_entriesOf ha)

/-- The entries of a file of the version are the lines of the file, in their order. -/
theorem map_content_entriesOfFile (ha : a.Consistent) (proper : ProperFiles files)
    {f : SourceFile} (hf : f ∈ files) :
    (b.entriesOfFile versionId f.filename).map (·.content) = f.lines.map (·.content) := by
  rw [added.map_content_entriesOfFile_filter ha, proper.filter_sourceLines hf]

/-- No rendering is of an entry of the version. -/
theorem entryId_ne (ha : a.Consistent) {e : EntryRow} (he : e ∈ b.entries.rows)
    (version : e.versionId = versionId) {t : RenderingRow} (ht : t ∈ b.renderings.rows) :
    t.entryId ≠ e.id := by
  obtain ⟨new, news, rows⟩ := added.entries
  rw [added.renderings] at ht
  obtain ⟨e', he', hid⟩ := List.mem_map.mp (ha.entryOfRendering t ht)
  rw [rows] at he
  rcases List.mem_append.mp he with he | he
  · exact absurd version (added.versionId_ne ha he)
  · have counted := (ha.entries.counted e' he').2
    have new := news.newIds e he
    rw [← show e'.id = t.entryId from hid]
    exact Int.ne_of_lt (Int.lt_of_le_of_lt counted new)

/-- The entries of the version have no renderings yet. -/
theorem bare (ha : a.Consistent) :
    ∀ e ∈ b.entriesOf versionId, ∀ t ∈ b.renderings.rows, t.entryId ≠ e.id := by
  intro e he t ht
  obtain ⟨he, version⟩ := mem_entriesOf_iff.mp he
  exact added.entryId_ne ha he version ht

end AddedVersion

end Archive

/-! ### The actions -/

namespace Action

open Archive

variable {access : Access} {a b : Archive} {modId : RowId} {files : List SourceFile}

/-- A mod is made if the right to write can be had. -/
theorem ends_commitMod_iff {name : String} {remoteId : Option String} {id : RowId} :
    (commitMod name remoteId).Ends access a id b ↔
      access.now ≤ Access.latestTime ∧ a.layout.hasTables = true ∧ access.obstacle = none ∧
        a.addMod name remoteId access.now = .ok (id, b) := by
  simp only [commitMod, ends_bind_iff, ends_write_change_iff, ends_report_iff, ends_pure_iff]
  constructor
  · rintro ⟨_, d, made, _, _, rfl, rfl, rfl⟩
    exact made
  · intro made
    exact ⟨id, b, made, (), b, rfl, rfl, rfl⟩

/-- A mod is found by its name, or made if the right to write can be had. -/
theorem ends_ensureMod_iff {name : String} {remoteId : Option String} {id : RowId} :
    (ensureMod name remoteId).Ends access a id b ↔ a.layout.hasTables = true ∧
      ((∃ m, a.mod? name = some m ∧ id = m.id ∧ b = a) ∨
        a.mod? name = none ∧ access.now ≤ Access.latestTime ∧ access.obstacle = none ∧
          a.addMod name remoteId access.now = .ok (id, b)) := by
  simp only [ensureMod, modNamed, ends_bind_iff, ends_read_iff]
  constructor
  · rintro ⟨found, c, ⟨tables, rfl, rfl⟩, rest⟩
    refine ⟨tables, ?_⟩
    cases hm : c.mod? name with
    | some m =>
      rw [hm] at rest
      exact .inl ⟨m, rfl, ends_pure_iff.mp rest⟩
    | none =>
      rw [hm] at rest
      obtain ⟨early, -, free, hb⟩ := ends_commitMod_iff.mp rest
      exact .inr ⟨rfl, early, free, hb⟩
  · rintro ⟨tables, ⟨m, hm, rfl, rfl⟩ | ⟨hm, early, free, hb⟩⟩
    · exact ⟨_, b, ⟨tables, rfl, rfl⟩, by simp [hm]⟩
    · refine ⟨_, a, ⟨tables, rfl, rfl⟩, ?_⟩
      rw [hm]
      exact ends_commitMod_iff.mpr ⟨early, tables, free, hb⟩

/-- A mod of a name that is not blank is found, or made if the right to write can be had. -/
theorem ends_ensureNamedMod_iff {name : String} {remoteId : Option String} {id : RowId} :
    (ensureNamedMod name remoteId).Ends access a id b ↔
      Text.allBlank name = false ∧ a.layout.hasTables = true ∧
        ((∃ m, a.mod? name = some m ∧ id = m.id ∧ b = a) ∨
          a.mod? name = none ∧ access.now ≤ Access.latestTime ∧ access.obstacle = none ∧
            a.addMod name remoteId access.now = .ok (id, b)) := by
  rw [ensureNamedMod]
  cases blank : Text.allBlank name with
  | true => simp
  | false => simpa using ends_ensureMod_iff

/-- Without a rule a mod is found or made. -/
theorem exists_ends_ensureNamedMod (rules : a.rules = []) (tables : a.layout.hasTables = true)
    (free : access.CanWrite) {name : String} (named : Text.allBlank name = false)
    (remoteId : Option String) : ∃ id b, (ensureNamedMod name remoteId).Ends access a id b := by
  cases hm : a.mod? name with
  | some m => exact ⟨m.id, a, ends_ensureNamedMod_iff.mpr ⟨named, tables, .inl ⟨m, hm, rfl, rfl⟩⟩⟩
  | none =>
    obtain ⟨id, b, hb⟩ := exists_addMod access.now rules hm remoteId
    exact ⟨id, b, ends_ensureNamedMod_iff.mpr ⟨named, tables, .inr ⟨hm, free.1, free.2, hb⟩⟩⟩

/-- The mod is there afterwards, and nothing but mods and aliases has changed. -/
theorem ensureNamedMod_frame {name : String} {remoteId : Option String} {id : RowId}
    (ends : (ensureNamedMod name remoteId).Ends access a id b) :
    (∃ m, b.mod? name = some m ∧ m.id = id) ∧
      b = { a with mods := b.mods, aliases := b.aliases } := by
  obtain ⟨-, -, ⟨m, hm, rfl, rfl⟩ | ⟨new, -, -, hb⟩⟩ := ends_ensureNamedMod_iff.mp ends
  · exact ⟨⟨m, hm, rfl⟩, rfl⟩
  · have added := addedMod_of_addMod new hb
    exact ⟨⟨_, added.mod? new, rfl⟩, added.frame⟩

/-- A version is found by its hash, or stored if the right to write can be had. -/
theorem ends_snapshotChecked_iff {s : Snapshot} :
    (snapshotChecked modId files).Ends access a s b ↔ a.layout.hasTables = true ∧
      ((∃ v, a.versionByHash? (snapshotHash files) = some v ∧ s = ⟨v.id, false, 0⟩ ∧ b = a) ∨
        a.versionByHash? (snapshotHash files) = none ∧ access.now ≤ Access.latestTime ∧
          access.obstacle = none ∧ a.addVersion modId files access.now = .ok (s, b)) := by
  simp only [snapshotChecked, snapshot, versionWithHash, ends_bind_iff, ends_reportAll_iff,
    ends_read_iff]
  constructor
  · rintro ⟨_, c, rfl, found, c', ⟨tables, rfl, rfl⟩, rest⟩
    refine ⟨tables, ?_⟩
    cases hv : c'.versionByHash? (snapshotHash files) with
    | some v =>
      simp only [hv, ends_bind_iff, ends_report_iff, ends_pure_iff] at rest
      obtain ⟨_, d, rfl, rfl, rfl⟩ := rest
      exact .inl ⟨v, rfl, rfl, rfl⟩
    | none =>
      simp only [hv, commitVersion, ends_bind_iff, ends_write_iff, Access.change_eq_ok_iff] at rest
      obtain ⟨s', d, ⟨-, early, -, free, hb⟩, rest⟩ := rest
      refine .inr ⟨rfl, early, free, ?_⟩
      split at rest
      · simp only [ends_bind_iff, ends_report_iff, ends_pure_iff] at rest
        obtain ⟨_, _, rfl, _, _, rfl, rfl, rfl⟩ := rest
        exact hb
      · obtain ⟨rfl, rfl⟩ := ends_pure_iff.mp rest
        exact hb
  · rintro ⟨tables, ⟨v, hv, rfl, rfl⟩ | ⟨hv, early, free, hb⟩⟩
    · refine ⟨(), b, rfl, _, b, ⟨tables, rfl, rfl⟩, ?_⟩
      simp [hv]
    · refine ⟨(), a, rfl, _, a, ⟨tables, rfl, rfl⟩, ?_⟩
      simp only [hv, commitVersion, ends_bind_iff, ends_write_iff, Access.change_eq_ok_iff]
      refine ⟨s, b, ⟨by simp [free], early, tables, free, hb⟩, ?_⟩
      split
      · simp
      · simp

/-- Without a rule, a version of a mod is stored if its hash is new. -/
theorem exists_ends_snapshotChecked (rules : a.rules = []) (paths : a.layout.hasFilePaths = true)
    (free : access.CanWrite) (ofMod : ∃ m ∈ a.mods.rows, m.id = modId)
    (new : a.versionByHash? (snapshotHash files) = none) :
    ∃ s b, (snapshotChecked modId files).Ends access a s b ∧
      a.addVersion modId files access.now = .ok (s, b) := by
  obtain ⟨s, b, stored⟩ := exists_addVersion access.now rules paths new ofMod
  have tables : a.layout.hasTables = true := Layout.hasTables_of_hasFilePaths paths
  exact ⟨s, b, ends_snapshotChecked_iff.mpr ⟨tables, .inr ⟨new, free.1, free.2, stored⟩⟩, stored⟩

/-- Whether a version is found or stored, aliases, renderings and rules are as before. -/
theorem snapshotChecked_frame {s : Snapshot}
    (ends : (snapshotChecked modId files).Ends access a s b) :
    b = { a with mods := b.mods, versions := b.versions, entries := b.entries } := by
  obtain ⟨-, ⟨v, -, -, rfl⟩ | ⟨-, -, -, hb⟩⟩ := ends_snapshotChecked_iff.mp ends
  · rfl
  · exact addVersion_frame hb

/-! ### How they fail -/

/-- A mod that cannot be made leaves nothing behind. -/
theorem archive_of_fails_commitMod {name : String} {remoteId : Option String} {failure : Failure}
    (fails : (commitMod name remoteId).Fails access a failure b) : b = a := by
  rw [commitMod, fails_bind_iff] at fails
  obtain fails | ⟨id, d, -, fails⟩ := fails
  · exact (fails_write_iff.mp fails).1
  · simp [fails_bind_iff] at fails

theorem archive_of_fails_ensureMod {name : String} {remoteId : Option String}
    {failure : Failure} (fails : (ensureMod name remoteId).Fails access a failure b) : b = a := by
  rw [ensureMod, modNamed, fails_bind_iff, fails_read_iff] at fails
  obtain ⟨-, -, rfl⟩ | ⟨found, c, looked, fails⟩ := fails
  · rfl
  · obtain ⟨-, -, rfl⟩ := ends_read_iff.mp looked
    cases found with
    | some m => exact absurd fails not_fails_pure
    | none => exact archive_of_fails_commitMod fails

theorem archive_of_fails_ensureNamedMod {name : String} {remoteId : Option String}
    {failure : Failure} (fails : (ensureNamedMod name remoteId).Fails access a failure b) :
    b = a := by
  rw [ensureNamedMod] at fails
  split at fails
  · exact (fails_fail_iff.mp fails).2
  · exact archive_of_fails_ensureMod fails

/-- A snapshot that fails leaves nothing behind. -/
theorem archive_of_fails_snapshot {failure : Failure}
    (fails : (snapshot modId files).Fails access a failure b) : b = a := by
  rw [snapshot, versionWithHash, fails_bind_iff, fails_read_iff] at fails
  obtain ⟨-, -, rfl⟩ | ⟨found, c, looked, fails⟩ := fails
  · rfl
  · obtain ⟨-, -, rfl⟩ := ends_read_iff.mp looked
    cases found with
    | some v => simp [fails_bind_iff] at fails
    | none =>
      -- After the write there are only reports.
      rw [commitVersion, fails_bind_iff] at fails
      obtain fails | ⟨s, d, -, fails⟩ := fails
      · exact (fails_write_iff.mp fails).1
      · split at fails <;> simp [fails_bind_iff] at fails

theorem archive_of_fails_snapshotChecked {failure : Failure}
    (fails : (snapshotChecked modId files).Fails access a failure b) : b = a := by
  rw [snapshotChecked, fails_bind_iff] at fails
  obtain fails | ⟨_, c, reported, fails⟩ := fails
  · exact absurd fails not_fails_reportAll
  · obtain rfl := ends_reportAll_iff.mp reported
    exact archive_of_fails_snapshot fails

/-- If its mod is there, a version is not stored because the write is hindered or because a rule
refuses the version or an entry. -/
theorem fails_snapshotChecked {failure : Failure} (current : a.layout = .current)
    (present : ∃ m ∈ a.mods.rows, m.id = modId)
    (fails : (snapshotChecked modId files).Fails access a failure b) :
    b = a ∧ a.Stops access [.sourceVersions, .sourceEntries] failure := by
  have tables := hasTables_of_current current
  rw [snapshotChecked, fails_bind_iff] at fails
  obtain fails | ⟨_, c, reported, fails⟩ := fails
  · exact absurd fails not_fails_reportAll
  · obtain rfl := ends_reportAll_iff.mp reported
    refine ⟨archive_of_fails_snapshot fails, ?_⟩
    rw [snapshot, versionWithHash, fails_bind_iff, fails_read_iff] at fails
    obtain ⟨missing, -⟩ | ⟨found, d, looked, fails⟩ := fails
    · cases tables.symm.trans missing
    · obtain ⟨-, rfl, rfl⟩ := ends_read_iff.mp looked
      cases new : d.versionByHash? (snapshotHash files) with
      | some v => simp [new, fails_bind_iff] at fails
      | none =>
        rw [new, commitVersion, fails_bind_iff] at fails
        obtain fails | ⟨s, e, -, fails⟩ := fails
        · obtain ⟨-, ⟨held, cause⟩ | ⟨-, h⟩⟩ := fails_write_iff.mp fails
          · exact .inl (.inl ⟨.held, held, cause⟩)
          · rw [new] at h
            refine (Access.hinders_of_change tables h).imp_right ?_
            rintro ⟨fault, stopped, cause⟩
            obtain version | entry :=
              refuses_of_addVersion new present (hasFilePaths_of_current current) stopped
            · exact ⟨_, by simp, fault, version, cause⟩
            · exact ⟨_, by simp, fault, entry, cause⟩
        · split at fails <;> simp [fails_bind_iff] at fails

end Action

end LocalizationMemory
