import LocalizationMemory.Proofs.Archive.Binding
import LocalizationMemory.Proofs.Reachability

/-!
# A batch of renderings as a whole or not at all

A batch gives texts to entries in one language. It is stored if all entries are there, and
one row that cannot be stored takes back what was stored before it. An entry may stand in
a batch several times; then it has one rendering in the end, with the text it was given
last. A rendering that was there keeps its id and its place, and what the batch does not
list is as it was. Storing a batch again finds all of its texts there: it changes times
alone, though it uses up ids for all of its rows.

## Main definitions

* `Archive.Stores` — how an archive differs by a batch
* `RenderingRow.place` — the id of a rendering, and what it is a rendering of
* `RenderingRow.retimed` — a rendering as a batch leaves it that is stored again

## Main results

* `boundText?_of_last` — the last text that is given to an entry is bound to it
* `Archive.exists_putRenderings_iff` — without a rule a batch is stored if its entries are
  there
* `Archive.stores_of_putRenderings` — what a batch leaves
* `Archive.renderings_putRenderings_again` — what it leaves when it is stored again
* `Archive.Reached.batch_whole_or_nothing` — batches in an archive that is reached
-/

namespace LocalizationMemory

/-- The last text that is given to an entry is bound to it. -/
theorem boundText?_of_last {earlier later : List EntryRendering} {entryId : RowId} {text : String}
    (last : ∀ row ∈ later, row.1 ≠ entryId) :
    boundText? (earlier ++ (entryId, text) :: later) entryId = some text := by
  induction earlier with
  | nil =>
    have none := boundText?_eq_none_iff.mpr last
    simp [boundText?, none]
  | cons row r ih => simp [boundText?, ih]

/-- A rendering as it is left by a batch that is stored again: if the batch lists its entry, its
time is new. -/
def RenderingRow.retimed (language : String) (now : Millis) (rows : List EntryRendering)
    (t : RenderingRow) : RenderingRow :=
  if t.language = language ∧ ∃ row ∈ rows, row.1 = t.entryId then { t with translatedAt := now }
  else t

/-- The id of a rendering, and what it is a rendering of. -/
def RenderingRow.place (t : RenderingRow) : RowId × RowId × String := (t.id, t.entryId, t.language)

theorem RenderingRow.place_after (language : String) (now : Millis) (rows : List EntryRendering)
    (t : RenderingRow) : (t.after language now rows).place = t.place := by
  obtain ⟨id, entry, into⟩ := t.after_keeps language now rows
  rw [place, id, entry, into, place]

namespace Archive

variable {a b c : Archive} {language : String} {now : Millis} {rows : List EntryRendering}

/-! ### What a batch needs -/

/-- The entries of a batch that is stored are there. -/
theorem present_of_putRenderings {a : Archive} (hb : putRenderings language now rows a = .ok b) :
    ∀ row ∈ rows, ∃ e ∈ a.entries.rows, e.id = row.1 := by
  induction rows generalizing a with
  | nil => simp
  | cons row r ih =>
    obtain ⟨c, hc, hb⟩ := putRenderings_cons_eq_ok_iff.mp hb
    obtain ⟨-, first, left⟩ := putRendering_eq_ok_iff.mp hc
    -- A rendering is no entry, so the others are looked for among the same entries.
    have others := ih hb
    rw [left] at others
    exact List.forall_mem_cons.mpr ⟨first, others⟩

/-- Without a rule a batch is stored exactly if its entries are there. -/
theorem exists_putRenderings_iff (language : String) (now : Millis) (rules : a.rules = []) :
    (∃ b, putRenderings language now rows a = .ok b) ↔
      ∀ row ∈ rows, ∃ e ∈ a.entries.rows, e.id = row.1 :=
  ⟨fun ⟨_, hb⟩ => present_of_putRenderings hb, exists_putRenderings language now rules⟩

/-! ### What a batch leaves -/

/-- An archive differs from another by a batch of renderings that was stored. -/
structure Stores (a : Archive) (language : String) (now : Millis) (rows : List EntryRendering)
    (b : Archive) : Prop where
  /-- A listed entry has one rendering, of the time of the batch, with the text given last. -/
  listed : ∀ earlier entryId text later, rows = earlier ++ (entryId, text) :: later →
    (∀ row ∈ later, row.1 ≠ entryId) → ∃ t ∈ b.renderings.rows, t.entryId = entryId ∧
      t.language = language ∧ t.text = text ∧ t.translatedAt = now ∧
        ∀ u ∈ b.renderings.rows, u.entryId = entryId → u.language = language → u = t
  /-- A rendering that was there stays in its place, under its id. -/
  kept : a.renderings.rows.map (·.place) <+: b.renderings.rows.map (·.place)
  /-- A rendering of another entry or into another language is as it was. -/
  others : ∀ t, (t.language = language → ∀ row ∈ rows, row.1 ≠ t.entryId) →
    (t ∈ b.renderings.rows ↔ t ∈ a.renderings.rows)
  counted : b.renderings.lastId = a.renderings.lastId + rows.length
  frame : b = { a with renderings := b.renderings }

theorem stores_of_putRenderings (hb : putRenderings language now rows a = .ok b)
    (languages : b.renderings.Unique fun t => (t.entryId, t.language)) :
    a.Stores language now rows b where
  listed := by
    rintro earlier entryId text later rfl last
    obtain ⟨t, ht, stored, entry, same⟩ := exists_storedBy hb (boundText?_of_last last)
    refine ⟨t, ht, entry, stored.into, same, stored.time, fun u hu entry' into => ?_⟩
    apply languages.eq_of_key_eq hu ht
    rw [entry, entry', into, stored.into]
  kept := by
    obtain ⟨new, -, after⟩ := rows_putRenderings hb
    have places : a.renderings.rows.map (fun t => (t.after language now rows).place) =
        a.renderings.rows.map (·.place) :=
      List.map_congr_left fun t _ => RenderingRow.place_after language now rows t
    rw [after, List.map_append, List.map_map]
    exact places ▸ List.prefix_append _ _
  others := by
    intro t unlisted
    have unbound (into : t.language = language) : boundText? rows t.entryId = none :=
      boundText?_eq_none_iff.mpr (unlisted into)
    constructor
    · intro ht
      obtain ⟨before, -⟩ | stored := mem_putRenderings_cases hb ht
      · exact before
      · cases (unbound stored.into).symm.trans stored.text
    · exact fun ht => mem_putRenderings_of_unbound hb ht unbound
  counted := lastId_putRenderings hb
  frame := putRenderings_frame hb

/-! ### Storing a batch again -/

/-- A batch that is stored again changes times alone, and uses up ids. -/
theorem renderings_putRenderings_again {later : Millis}
    (hb : putRenderings language now rows a = .ok b)
    (hc : putRenderings language later rows b = .ok c) :
    c.renderings = ⟨b.renderings.rows.map (·.retimed language later rows),
      b.renderings.lastId + rows.length⟩ := by
  obtain ⟨new, news, after⟩ := rows_putRenderings hc
  -- Every entry that is given a text has a rendering already, so none is added.
  have none : new = [] := by
    apply List.map_eq_nil_iff.mp
    apply List.eq_nil_iff_forall_not_mem.mpr
    intro entryId mem
    obtain ⟨bound, bare⟩ := (news.entries entryId).mp mem
    obtain ⟨t, ht, entry, into⟩ := exists_mem_putRenderings hb bound
    exact bare t ht into entry
  -- And it has the text that it is given.
  have retimed : ∀ t ∈ b.renderings.rows, t.after language later rows =
      t.retimed language later rows := by
    intro t ht
    unfold RenderingRow.retimed
    split
    · next listed =>
      obtain ⟨into, row, hrow, entry⟩ := listed
      obtain ⟨-, unbound⟩ | stored := mem_putRenderings_cases hb ht
      · exact absurd entry (boundText?_eq_none_iff.mp (unbound into) row hrow)
      · exact RenderingRow.after_of_bound into stored.text
    · next unlisted =>
      apply RenderingRow.after_of_unbound
      intro into
      exact boundText?_eq_none_iff.mpr fun row hrow entry => unlisted ⟨into, row, hrow, entry⟩
  have rows : c.renderings.rows = b.renderings.rows.map (·.retimed language later rows) := by
    rw [after, none, List.append_nil, List.map_congr_left retimed]
  rw [← rows, ← lastId_putRenderings hc]

end Archive

/-! ### The action -/

/-- A batch that fails leaves nothing behind. -/
theorem Action.archive_of_fails_putRenderings {access : Access} {a b : Archive}
    {language : String} {rows : List EntryRendering} {failure : Failure}
    (fails : (Action.putRenderings language rows).Fails access a failure b) : b = a := by
  rw [Action.putRenderings] at fails
  split at fails
  · exact absurd fails Action.not_fails_pure
  · exact (Action.fails_write_iff.mp fails).1

namespace Archive

/-- Batches in an archive that is reached. Where the right to write can be had and no rule refuses
inserts, a batch is stored exactly if all of its entries are there. If it fails, of whatever cause
and at whatever row, the archive is as it was, the counters included. If it succeeds it counts its
rows, and in the language every listed entry has one rendering, with the text given last and at
the time of the batch; what was there keeps its id and its place; and nothing else has changed.
The same batch can then be stored again, which changes but the times of its renderings. -/
theorem Reached.batch_whole_or_nothing {tick : Millis → Millis → Prop} {now : Millis} {a : Archive}
    (reached : a.Reached tick now) (tables : a.layout.hasTables = true) (language : String)
    (rows : List EntryRendering) (access : Access) :
    let act := Action.putRenderings language rows
    (a.rules = [] → access.CanWrite → ((∃ n b, act.Ends access a n b) ↔
      ∀ row ∈ rows, ∃ e ∈ a.entries.rows, e.id = row.1)) ∧
    (∀ failure b, act.Fails access a failure b → b = a) ∧
    ∀ n b, act.Ends access a n b → n = rows.length ∧ a.Stores language access.now rows b ∧
      ∀ access', (a.rules = [] → access'.CanWrite → ∃ c, act.Ends access' b n c) ∧
        ∀ m c, act.Ends access' b m c → m = n ∧
          c = { b with renderings := ⟨b.renderings.rows.map (·.retimed language access'.now rows),
            b.renderings.lastId + rows.length⟩ } := by
  intro act
  have ha := reached.isConsistent
  refine ⟨fun rules free => ?_, fun failure b => Action.archive_of_fails_putRenderings, ?_⟩
  · rw [← exists_putRenderings_iff language access.now rules]
    constructor
    · rintro ⟨n, b, ends⟩
      exact ⟨b, (Action.ends_putRenderings_iff.mp ends).1⟩
    · rintro ⟨b, hb⟩
      exact ⟨rows.length, b,
        Action.ends_putRenderings_iff.mpr ⟨hb, rfl, fun _ => ⟨free.1, tables, free.2⟩⟩⟩
  · intro n b ends
    obtain ⟨hb, rfl, -⟩ := Action.ends_putRenderings_iff.mp ends
    have stores := stores_of_putRenderings hb (ha.putRenderings hb).languages
    refine ⟨rfl, stores, fun access' => ⟨fun rules free => ?_, fun m c again => ?_⟩⟩
    · -- The entries and the rules are those of before.
      have present := present_of_putRenderings hb
      have entries : b.entries = a.entries := by rw [stores.frame]
      rw [← entries] at present
      have rules' : b.rules = [] := by
        rw [stores.frame]
        exact rules
      have tables' : b.layout.hasTables = true := by
        rw [stores.frame]
        exact tables
      obtain ⟨c, hc⟩ := exists_putRenderings language access'.now rules' present
      exact ⟨c, Action.ends_putRenderings_iff.mpr
        ⟨hc, rfl, fun _ => ⟨free.1, tables', free.2⟩⟩⟩
    · obtain ⟨hc, rfl, -⟩ := Action.ends_putRenderings_iff.mp again
      refine ⟨rfl, ?_⟩
      rw [← renderings_putRenderings_again hb hc]
      exact putRenderings_frame hc

/-- A batch that lists an entry twice replaces its rendering and adds one for the other; a batch
with an entry that is not there leaves nothing of what it stored before. -/
theorem Reached.batch_whole_or_nothing_of_repeated :
    ∃ a : Archive, a.Reached (· ≤ ·) 3 ∧
      (∃ n b, (Action.putRenderings "ko" [(1, "P"), (2, "Q"), (1, "R")]).Ends { now := 4 } a n b ∧
        n = 3 ∧ a.Stores "ko" 4 [(1, "P"), (2, "Q"), (1, "R")] b ∧
        ∃ t ∈ b.renderings.rows, t.entryId = 1 ∧ t.language = "ko" ∧ t.text = "R") ∧
      ∃ failure,
        (Action.putRenderings "ko" [(1, "P"), (7, "Q")]).Fails { now := 4 } a failure a := by
  let s : Store := { settings := {} }
  let ops : List Operation := [.putRenderings "ko" [(1, "O")],
    .snapshot 1 [⟨"a.yml", [⟨"k", none⟩, ⟨"l", none⟩], ["X", "Y"]⟩], .ensureMod "Alpha" none]
  obtain ⟨a, found, tables, rules, present, absent⟩ :
      ∃ a ∈ (s.operateAll ops).archive? 0, a.layout.hasTables = true ∧ a.rules = [] ∧
        (∀ row ∈ [((1 : RowId), "P"), (2, "Q"), (1, "R")],
          ∃ e ∈ a.entries.rows, e.id = row.1) ∧ ∀ e ∈ a.entries.rows, e.id ≠ 7 := by
    decide +kernel
  have reached : a.Reached (· ≤ ·) 3 := ⟨_, 0, s.reached_operateAll ops, found⟩
  have free : ({ now := 4 } : Access).CanWrite := ⟨by decide, rfl⟩
  obtain ⟨succeeds, -, leaves⟩ := reached.batch_whole_or_nothing tables "ko"
    [(1, "P"), (2, "Q"), (1, "R")] { now := 4 }
  obtain ⟨succeeds', fails, -⟩ :=
    reached.batch_whole_or_nothing tables "ko" [(1, "P"), (7, "Q")] { now := 4 }
  obtain ⟨n, b, ends⟩ := (succeeds rules free).mpr present
  obtain ⟨count, stores, -⟩ := leaves n b ends
  obtain ⟨t, ht, entry, into, text, -⟩ := stores.listed [(1, "P"), (2, "Q")] 1 "R" [] rfl (by simp)
  refine ⟨a, reached, ⟨n, b, ends, count, stores, t, ht, entry, into, text⟩, ?_⟩
  cases result : ((Action.putRenderings "ko" [(1, "P"), (7, "Q")]) { now := 4 } a).result with
  | ok n =>
    obtain ⟨e, he, id⟩ := (succeeds' rules free).mp ⟨n, _, result, rfl⟩ (7, "Q") (by simp)
    exact absurd id (absent e he)
  | error failure => exact ⟨failure, result, fails failure _ ⟨result, rfl⟩⟩

end Archive

end LocalizationMemory
