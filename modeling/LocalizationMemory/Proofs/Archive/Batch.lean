import LocalizationMemory.Proofs.Archive.History

/-!
# What a batch of renderings leaves

A batch is stored row by row, and later rows for an entry replace earlier ones. In the
end an entry has the text that it was given last, at the time of the batch, and every
rendering of another entry or into another language is as before. A rendering that is
replaced keeps its id; so among renderings of one time, the one of the batch need not be
the newest. What is read back for a key is the text of the batch in any case where
nothing else was as late.

## Main definitions

* `boundText?` — the text that a batch gives an entry last
* `RenderingRow.after` — a rendering of before as a batch leaves it
* `Archive.NewRenderings` — the renderings that a batch adds
* `Archive.StoredBy` — the rendering is one that a batch stored

## Main results

* `Archive.rows_putRenderings` — the rows after a batch: those of before, and the new ones
* `Archive.mem_putRenderings_cases`, `Archive.mem_putRenderings_of_unbound`,
  `Archive.exists_storedBy` — the renderings after a batch
* `Archive.lastRendering?_of_unbound` — a key of which no entry is in the batch is read
  back as before
* `Archive.lastRendering?_of_bound` — a key of which one entry is in the batch is read
  back with the text of the batch, or as before by a rendering of the same time
-/

namespace LocalizationMemory

/-- The text that a batch gives an entry last. -/
def boundText? : List EntryRendering → RowId → Option String
  | [], _ => none
  | row :: r, entryId => (boundText? r entryId).or (if row.1 = entryId then some row.2 else none)

theorem boundText?_cons (row : EntryRendering) (r : List EntryRendering) (entryId : RowId) :
    boundText? (row :: r) entryId = (boundText? r entryId).or (boundText? [row] entryId) := rfl

theorem boundText?_eq_none_iff {rows : List EntryRendering} {entryId : RowId} :
    boundText? rows entryId = none ↔ ∀ row ∈ rows, row.1 ≠ entryId := by
  induction rows with
  | nil => simp [boundText?]
  | cons row r ih => simp [boundText?, ih, and_comm]

/-- A text that is bound stands in the batch. -/
theorem mem_of_boundText?_eq_some {rows : List EntryRendering} {entryId : RowId} {text : String}
    (h : boundText? rows entryId = some text) : (entryId, text) ∈ rows := by
  induction rows with
  | nil => cases h
  | cons row r ih =>
    rw [boundText?] at h
    cases hr : boundText? r entryId with
    | some later =>
      rw [hr] at h
      cases h
      exact List.mem_cons_of_mem _ (ih hr)
    | none =>
      rw [hr] at h
      by_cases same : row.1 = entryId
      · simp only [same, if_true, Option.none_or, Option.some.injEq] at h
        rw [← same, ← h]
        exact List.mem_cons_self
      · simp [same] at h

/-- A text that stands in the batch is bound if no other is given to its entry. -/
theorem boundText?_eq_some {rows : List EntryRendering} {entryId : RowId} {text : String}
    (mem : (entryId, text) ∈ rows) (only : ∀ row ∈ rows, row.1 = entryId → row.2 = text) :
    boundText? rows entryId = some text := by
  cases h : boundText? rows entryId with
  | none => exact absurd rfl (boundText?_eq_none_iff.mp h _ mem)
  | some other => exact congrArg some (only _ (mem_of_boundText?_eq_some h) rfl)

/-- In a batch that lists every entry once an entry is given the text that it is listed with. -/
theorem boundText?_eq_some_iff_of_nodup {rows : List EntryRendering}
    (nodup : (rows.map (·.1)).Nodup) {entryId : RowId} {text : String} :
    boundText? rows entryId = some text ↔ (entryId, text) ∈ rows := by
  constructor
  · exact mem_of_boundText?_eq_some
  · intro mem
    refine boundText?_eq_some mem fun row hrow same => ?_
    rw [List.inj_on_of_nodup_map nodup hrow mem same]

/-- What is done to all texts of a batch is done to those that are bound. -/
theorem boundText?_map (f : String → String) (rows : List EntryRendering) (entryId : RowId) :
    boundText? (rows.map fun row => (row.1, f row.2)) entryId =
      (boundText? rows entryId).map f := by
  induction rows with
  | nil => rfl
  | cons row r ih =>
    rw [List.map_cons, boundText?, boundText?, ih]
    cases boundText? r entryId with
    | some text => rfl
    | none =>
      by_cases same : row.1 = entryId
      · simp [same]
      · simp [same]

namespace Archive

variable {a b : Archive} {language : String} {now : Millis} {rows : List EntryRendering}
  {t : RenderingRow}

/-- The rendering is one that a batch stored: at the time of the batch, with the text
that its entry was given last, under a new id or that of the one it replaced. -/
structure StoredBy (a : Archive) (language : String) (now : Millis)
    (rows : List EntryRendering) (t : RenderingRow) : Prop where
  into : t.language = language
  time : t.translatedAt = now
  text : boundText? rows t.entryId = some t.text
  id : a.renderings.lastId < t.id ∨
    ∃ u ∈ a.renderings.rows, u.id = t.id ∧ u.entryId = t.entryId ∧ u.language = language

/-! ### The other tables, and the ids -/

/-- Only renderings change. -/
theorem putRenderings_frame (hb : putRenderings language now rows a = .ok b) :
    b = { a with renderings := b.renderings } := by
  induction rows generalizing a with
  | nil => rw [putRenderings_nil_eq_ok_iff.mp hb]
  | cons row r ih =>
    obtain ⟨c, hc, hb⟩ := putRenderings_cons_eq_ok_iff.mp hb
    obtain ⟨-, -, rfl⟩ := putRendering_eq_ok_iff.mp hc
    have frame := ih hb
    exact frame

/-- A row uses up an id, whether it adds a rendering or replaces one. -/
theorem lastId_putRendering {row : EntryRendering} (hb : a.putRendering language now row = .ok b) :
    b.renderings.lastId = a.renderings.nextId := by
  obtain ⟨-, -, rfl⟩ := putRendering_eq_ok_iff.mp hb
  exact Table.lastId_upsert ..

theorem lastId_lt_of_putRendering {row : EntryRendering}
    (hb : a.putRendering language now row = .ok b) :
    a.renderings.lastId < b.renderings.lastId := by
  rw [lastId_putRendering hb]
  exact a.renderings.lastId_lt_nextId

theorem lastId_putRenderings (hb : putRenderings language now rows a = .ok b) :
    b.renderings.lastId = a.renderings.lastId + rows.length := by
  induction rows generalizing a with
  | nil => rw [putRenderings_nil_eq_ok_iff.mp hb, List.length_nil, Int.natCast_zero, Int.add_zero]
  | cons row r ih =>
    obtain ⟨c, hc, hb⟩ := putRenderings_cons_eq_ok_iff.mp hb
    rw [ih hb, lastId_putRendering hc, Table.nextId, List.length_cons, Int.natCast_succ,
      Int.add_assoc, Int.add_comm 1]

theorem translates_iff {entryId : RowId} :
    translates entryId language t = true ↔ t.entryId = entryId ∧ t.language = language := by
  simp [translates]

end Archive

/-! ### The rows after a batch -/

/-- A rendering of before as a batch leaves it: with the text that its entry was given last, if it
was given one in this language. -/
def RenderingRow.after (language : String) (now : Millis) (rows : List EntryRendering)
    (t : RenderingRow) : RenderingRow :=
  if t.language = language then
    match boundText? rows t.entryId with
    | none => t
    | some text => { t with text, translatedAt := now }
  else t

namespace RenderingRow

variable {language : String} {now : Millis} {rows : List EntryRendering} {t : RenderingRow}

theorem after_of_bound {text : String} (into : t.language = language)
    (bound : boundText? rows t.entryId = some text) :
    t.after language now rows = { t with text, translatedAt := now } := by
  simp [after, into, bound]

theorem after_of_unbound (unbound : t.language = language → boundText? rows t.entryId = none) :
    t.after language now rows = t := by
  unfold after
  split
  · next into => rw [unbound into]
  · rfl

theorem after_keeps (language : String) (now : Millis) (rows : List EntryRendering)
    (t : RenderingRow) : (t.after language now rows).id = t.id ∧
    (t.after language now rows).entryId = t.entryId ∧
      (t.after language now rows).language = t.language := by
  unfold after
  split
  · split <;> exact ⟨rfl, rfl, rfl⟩
  · exact ⟨rfl, rfl, rfl⟩

theorem translatedAt_after (time : t.translatedAt = now) :
    (t.after language now rows).translatedAt = now := by
  unfold after
  split
  · split
    · exact time
    · rfl
  · exact time

/-- A batch of one row replaces the text of its entry. -/
theorem after_singleton (row : EntryRendering) (t : RenderingRow) :
    t.after language now [row] =
      if Archive.translates row.1 language t then { t with text := row.2, translatedAt := now }
      else t := by
  by_cases into : t.language = language
  · by_cases same : row.1 = t.entryId
    · simp [after, Archive.translates, boundText?, into, same]
    · simp [after, Archive.translates, boundText?, into, same, Ne.symm same]
  · simp [after, Archive.translates, into]

/-- The first row of a batch replaces a text, and the others replace it once more. -/
theorem after_cons (row : EntryRendering) (r : List EntryRendering) (t : RenderingRow) :
    t.after language now (row :: r) = (t.after language now [row]).after language now r := by
  by_cases into : t.language = language
  · cases later : boundText? r t.entryId <;> cases first : boundText? [row] t.entryId <;>
      simp [after, boundText?_cons row r, into, later, first]
  · simp [after, into]

end RenderingRow

namespace Archive

variable {a b : Archive} {language : String} {now : Millis} {rows : List EntryRendering}
  {t : RenderingRow}

/-- The renderings that a batch adds: one for each entry that is given a text and had none in the
language, with the text given last, under new ids. -/
structure NewRenderings (a : Archive) (language : String) (now : Millis)
    (rows : List EntryRendering) (new : List RenderingRow) : Prop where
  into : ∀ t ∈ new, t.language = language
  time : ∀ t ∈ new, t.translatedAt = now
  text : ∀ t ∈ new, boundText? rows t.entryId = some t.text
  newIds : ∀ t ∈ new, a.renderings.lastId < t.id
  distinct : (new.map (·.entryId)).Nodup
  entries : ∀ id, id ∈ new.map (·.entryId) ↔ boundText? rows id ≠ none ∧
    ∀ t ∈ a.renderings.rows, t.language = language → t.entryId ≠ id

/-- One row replaces a text, or adds a rendering if there is none. -/
theorem rows_putRendering {row : EntryRendering} (hb : a.putRendering language now row = .ok b) :
    ∃ new, a.NewRenderings language now [row] new ∧
      b.renderings.rows = a.renderings.rows.map (·.after language now [row]) ++ new := by
  obtain ⟨-, -, rfl⟩ := putRendering_eq_ok_iff.mp hb
  simp only [Table.rows_upsert, RenderingRow.after_singleton]
  split
  · next present =>
    obtain ⟨u, hu, match_⟩ := List.any_eq_true.mp present
    obtain ⟨entry, into⟩ := translates_iff.mp match_
    refine ⟨[], ⟨by simp, by simp, by simp, by simp, .nil, fun id => ?_⟩, by simp⟩
    simp only [List.map_nil, List.not_mem_nil, false_iff, not_and]
    intro bound bare
    have same : row.1 = id := by
      by_contra differs
      exact bound (by simp [boundText?, differs])
    exact bare u hu into (entry.trans same)
  · next none =>
    have absent : ∀ t ∈ a.renderings.rows, ¬ translates row.1 language t = true :=
      fun t ht match_ => none (List.any_eq_true.mpr ⟨t, ht, match_⟩)
    refine ⟨[⟨a.renderings.nextId, row.1, language, row.2, now⟩],
      ⟨by simp, by simp, by simp [boundText?], by simp [a.renderings.lastId_lt_nextId],
        List.nodup_singleton _, fun id => ?_⟩, ?_⟩
    · simp only [List.map_cons, List.map_nil, List.mem_singleton]
      constructor
      · rintro rfl
        exact ⟨by simp [boundText?], fun t ht into entry =>
          absent t ht (translates_iff.mpr ⟨entry, into⟩)⟩
      · rintro ⟨bound, -⟩
        by_contra differs
        exact bound (by simp [boundText?, Ne.symm differs])
    · have same : a.renderings.rows.map (fun t => if translates row.1 language t then
          { t with text := row.2, translatedAt := now } else t) = a.renderings.rows.map id :=
        List.map_congr_left fun t ht => if_neg (absent t ht)
      rw [same, List.map_id]

/-- What the first row of a batch adds, as the others leave it, and what the others add make what
the batch adds. -/
theorem NewRenderings.cons {c : Archive} {row : EntryRendering} {r : List EntryRendering}
    {first others : List RenderingRow} (news : a.NewRenderings language now [row] first)
    (kept : c.renderings.rows = a.renderings.rows.map (·.after language now [row]) ++ first)
    (counted : a.renderings.lastId < c.renderings.lastId)
    (later : c.NewRenderings language now r others) :
    a.NewRenderings language now (row :: r) (first.map (·.after language now r) ++ others) := by
  have keeps := RenderingRow.after_keeps language now
  have entryIds : (first.map (·.after language now r)).map (·.entryId) = first.map (·.entryId) := by
    rw [List.map_map]
    exact List.map_congr_left fun t _ => (keeps r t).2.1
  -- An entry is without a rendering after the first row if it was before and is given none by it.
  have bare : ∀ id, (∀ t ∈ c.renderings.rows, t.language = language → t.entryId ≠ id) ↔
      (∀ t ∈ a.renderings.rows, t.language = language → t.entryId ≠ id) ∧
        id ∉ first.map (·.entryId) := by
    intro id
    rw [kept, List.forall_mem_append, List.forall_mem_map]
    refine and_congr (forall₂_congr fun t _ => ?_) ?_
    · rw [(keeps [row] t).2.1, (keeps [row] t).2.2]
    · simp only [List.mem_map, not_exists, not_and]
      exact forall₂_congr fun t ht => by simp [news.into t ht]
  refine ⟨?_, ?_, ?_, ?_, ?_, fun id => ?_⟩
  · rw [List.forall_mem_append, List.forall_mem_map]
    exact ⟨fun t ht => (keeps r t).2.2.trans (news.into t ht), later.into⟩
  · rw [List.forall_mem_append, List.forall_mem_map]
    exact ⟨fun t ht => RenderingRow.translatedAt_after (news.time t ht), later.time⟩
  · rw [List.forall_mem_append, List.forall_mem_map]
    refine ⟨fun t ht => ?_, fun t ht => ?_⟩
    · cases bound : boundText? r t.entryId <;>
        simp [RenderingRow.after, news.into t ht, boundText?_cons row r, bound, news.text t ht]
    · rw [boundText?_cons row r, later.text t ht, Option.some_or]
  · rw [List.forall_mem_append, List.forall_mem_map]
    refine ⟨fun t ht => ?_, fun t ht => Int.lt_trans counted (later.newIds t ht)⟩
    rw [(keeps r t).1]
    exact news.newIds t ht
  · rw [List.map_append, entryIds, List.nodup_append]
    refine ⟨news.distinct, later.distinct, fun id hid id' hid' same => ?_⟩
    rw [← same] at hid'
    exact ((bare id).mp ((later.entries id).mp hid').2).2 hid
  · rw [List.map_append, List.mem_append, entryIds, later.entries, bare, news.entries,
      boundText?_cons row r]
    generalize (∀ t ∈ a.renderings.rows, t.language = language → t.entryId ≠ id) = without
    cases boundText? r id <;> cases boundText? [row] id <;> simp

/-- The rows after a batch are those of before in their places, with their last texts, and then
the new ones. -/
theorem rows_putRenderings (hb : putRenderings language now rows a = .ok b) :
    ∃ new, a.NewRenderings language now rows new ∧
      b.renderings.rows = a.renderings.rows.map (·.after language now rows) ++ new := by
  induction rows generalizing a with
  | nil =>
    obtain rfl := putRenderings_nil_eq_ok_iff.mp hb
    refine ⟨[], ⟨by simp, by simp, by simp, by simp, .nil, by simp [boundText?]⟩, ?_⟩
    have same : b.renderings.rows.map (·.after language now []) = b.renderings.rows.map id :=
      List.map_congr_left fun t _ => RenderingRow.after_of_unbound fun _ => rfl
    rw [same, List.map_id, List.append_nil]
  | cons row r ih =>
    obtain ⟨c, hc, hb⟩ := putRenderings_cons_eq_ok_iff.mp hb
    obtain ⟨first, news, kept⟩ := rows_putRendering hc
    obtain ⟨others, later, after⟩ := ih hb
    refine ⟨first.map (·.after language now r) ++ others,
      news.cons kept (lastId_lt_of_putRendering hc) later, ?_⟩
    rw [after, kept, List.map_append, List.map_map, List.append_assoc]
    refine congrArg (· ++ _) (List.map_congr_left fun t _ => ?_)
    exact (RenderingRow.after_cons row r t).symm

/-! ### The renderings after a batch -/

/-- After a batch a rendering is one of before that the batch did not reach, or one that
the batch stored. -/
theorem mem_putRenderings_cases (hb : putRenderings language now rows a = .ok b)
    (ht : t ∈ b.renderings.rows) :
    t ∈ a.renderings.rows ∧ (t.language = language → boundText? rows t.entryId = none) ∨
      a.StoredBy language now rows t := by
  obtain ⟨new, news, after⟩ := rows_putRenderings hb
  rw [after, List.mem_append, List.mem_map] at ht
  obtain ⟨u, hu, rfl⟩ | ht := ht
  · by_cases unbound : u.language = language → boundText? rows u.entryId = none
    · rw [RenderingRow.after_of_unbound unbound]
      exact .inl ⟨hu, unbound⟩
    · obtain ⟨into, bound⟩ := Classical.not_imp.mp unbound
      obtain ⟨text, bound⟩ := Option.ne_none_iff_exists'.mp bound
      rw [RenderingRow.after_of_bound into bound]
      exact .inr ⟨into, rfl, bound, .inr ⟨u, hu, rfl, rfl, into⟩⟩
  · exact .inr ⟨news.into t ht, news.time t ht, news.text t ht, .inl (news.newIds t ht)⟩

/-- A rendering that a batch does not reach stays. -/
theorem mem_putRenderings_of_unbound (hb : putRenderings language now rows a = .ok b)
    (ht : t ∈ a.renderings.rows)
    (unbound : t.language = language → boundText? rows t.entryId = none) :
    t ∈ b.renderings.rows := by
  obtain ⟨new, -, after⟩ := rows_putRenderings hb
  rw [after]
  refine List.mem_append_left _ (List.mem_map.mpr ⟨t, ht, ?_⟩)
  exact RenderingRow.after_of_unbound unbound

/-- An entry in a batch has a rendering after it. -/
theorem exists_mem_putRenderings (hb : putRenderings language now rows a = .ok b)
    {entryId : RowId} (bound : boundText? rows entryId ≠ none) :
    ∃ t ∈ b.renderings.rows, t.entryId = entryId ∧ t.language = language := by
  obtain ⟨new, news, after⟩ := rows_putRenderings hb
  rw [after]
  by_cases bare : ∀ t ∈ a.renderings.rows, t.language = language → t.entryId ≠ entryId
  · obtain ⟨t, ht, entry⟩ := List.mem_map.mp ((news.entries entryId).mpr ⟨bound, bare⟩)
    exact ⟨t, List.mem_append_right _ ht, entry, news.into t ht⟩
  · push Not at bare
    obtain ⟨t, ht, into, entry⟩ := bare
    obtain ⟨-, sameEntry, sameLanguage⟩ := RenderingRow.after_keeps language now rows t
    exact ⟨_, List.mem_append_left _ (List.mem_map_of_mem ht), sameEntry.trans entry,
      sameLanguage.trans into⟩

/-- An entry in a batch has the rendering that it was given last. -/
theorem exists_storedBy (hb : putRenderings language now rows a = .ok b) {entryId : RowId}
    {text : String} (bound : boundText? rows entryId = some text) :
    ∃ t ∈ b.renderings.rows, a.StoredBy language now rows t ∧ t.entryId = entryId ∧
      t.text = text := by
  have reached : boundText? rows entryId ≠ none := by simp [bound]
  obtain ⟨t, ht, entry, into⟩ := exists_mem_putRenderings hb reached
  rcases mem_putRenderings_cases hb ht with ⟨-, unbound⟩ | stored
  · have none := unbound into
    rw [entry, bound] at none
    cases none
  · have same := stored.text
    rw [entry, bound] at same
    exact ⟨t, ht, stored, entry, (Option.some.inj same).symm⟩

/-- A rendering that a batch stored is no older than the one it replaced. -/
theorem StoredBy.notNewer_of_replaced (ha : a.Consistent) (past : a.NotAfter now)
    (stored : a.StoredBy language now rows t) {u : RenderingRow} (hu : u ∈ a.renderings.rows)
    (entry : u.entryId = t.entryId) (into : u.language = language) : notNewer u t = true := by
  have time : u.translatedAt ≤ t.translatedAt := by
    rw [stored.time]
    exact past.renderings u hu
  -- An entry has one rendering into a language, so this is the one whose id was kept.
  have id : u.id ≤ t.id := by
    rcases stored.id with new | ⟨w, hw, sameId, sameEntry, winto⟩
    · exact Int.le_trans (ha.renderings.counted u hu).2 (Int.le_of_lt new)
    · have same : w = u :=
        ha.languages.eq_of_key_eq hw hu (by rw [sameEntry, entry, winto, into])
      exact Int.le_of_eq (by rw [← same, sameId])
  simp only [notNewer, decide_eq_true_eq]
  grind

/-- Without a rule a batch for entries that are there can be stored. -/
theorem exists_putRenderings (language : String) (now : Millis) {rows : List EntryRendering}
    {a : Archive} (rules : a.rules = [])
    (present : ∀ row ∈ rows, ∃ e ∈ a.entries.rows, e.id = row.1) :
    ∃ b, putRenderings language now rows a = .ok b := by
  induction rows generalizing a with
  | nil => exact ⟨a, rfl⟩
  | cons row r ih =>
    obtain ⟨c, hc⟩ : ∃ c, a.putRendering language now row = .ok c :=
      ⟨_, putRendering_eq_ok_iff.mpr
        ⟨refusal?_of_rules rules _, present row List.mem_cons_self, rfl⟩⟩
    have kept : c.rules = [] ∧ c.entries = a.entries := by
      obtain ⟨-, -, rfl⟩ := putRendering_eq_ok_iff.mp hc
      exact ⟨rules, rfl⟩
    obtain ⟨b, hb⟩ := ih (a := c) kept.1 fun row' hrow' => by
      rw [kept.2]
      exact present row' (List.mem_cons_of_mem _ hrow')
    exact ⟨b, putRenderings_cons_eq_ok_iff.mpr ⟨c, hc, hb⟩⟩

/-! ### Reading back after a batch -/

section ReadBack

variable {modId : RowId} {file key : String} {e : EntryRow} {u : RenderingRow}
  (hb : putRenderings language now rows a = .ok b)

include hb

/-- An entry is of the same file before and after a batch. -/
theorem inFile_putRenderings_iff : b.InFile modId file e ↔ a.InFile modId file e := by
  rw [putRenderings_frame hb]
  constructor
  · exact fun h => ⟨h.mem, h.version, h.file⟩
  · exact fun h => ⟨h.mem, h.version, h.file⟩

/-- After a batch the renderings of a key are those of before that the batch did not
reach, and those that it stored. -/
theorem renders_putRenderings_cases (hu : b.Renders modId file language key u) :
    a.Renders modId file language key u ∧ boundText? rows u.entryId = none ∨
      a.StoredBy language now rows u ∧
        ∃ e, a.InFile modId file e ∧ e.key = key ∧ e.id = u.entryId := by
  obtain ⟨e, inFile, hkey, hid⟩ := hu.entry
  have inFile := (inFile_putRenderings_iff hb).mp inFile
  rcases mem_putRenderings_cases hb hu.mem with ⟨before, unbound⟩ | stored
  · exact .inl ⟨⟨before, hu.into, e, inFile, hkey, hid⟩, unbound hu.into⟩
  · exact .inr ⟨stored, e, inFile, hkey, hid⟩

theorem Renders.of_unbound (hu : a.Renders modId file language key u)
    (unbound : boundText? rows u.entryId = none) : b.Renders modId file language key u := by
  obtain ⟨e, inFile, hkey, hid⟩ := hu.entry
  have inFile := (inFile_putRenderings_iff hb).mpr inFile
  exact ⟨mem_putRenderings_of_unbound hb hu.mem fun _ => unbound, hu.into, e, inFile, hkey, hid⟩

variable (ha : a.Consistent)

include ha

/-- A key of which no entry is in the batch is read back as before. -/
theorem lastRendering?_of_unbound
    (unbound : ∀ e, a.InFile modId file e → e.key = key → boundText? rows e.id = none) :
    lastRendering? (b.renderingHistory modId file language) key =
      lastRendering? (a.renderingHistory modId file language) key := by
  apply lastRendering?_congr (ha.putRenderings hb) ha
  intro u
  constructor
  · intro hu
    rcases renders_putRenderings_cases hb hu with ⟨before, -⟩ | ⟨stored, e, inFile, hkey, hid⟩
    · exact before
    · have none := unbound e inFile hkey
      rw [hid, stored.text] at none
      cases none
  · intro hu
    obtain ⟨e, inFile, hkey, hid⟩ := hu.entry
    apply hu.of_unbound hb
    rw [← hid]
    exact unbound e inFile hkey

variable
  (only : ∀ e', a.InFile modId file e' → e'.key = key → boundText? rows e'.id ≠ none → e' = e)

include only

/-- Of a key of which one entry is in the batch, every rendering but that of the batch is
one of before. -/
theorem renders_cases_of_only (ht : t ∈ b.renderings.rows)
    (stored : a.StoredBy language now rows t) (entry : t.entryId = e.id)
    (hu : b.Renders modId file language key u) :
    u = t ∨ a.Renders modId file language key u ∧ boundText? rows u.entryId = none := by
  rcases renders_putRenderings_cases hb hu with before | ⟨storedToo, e', inFile, hkey, hid⟩
  · exact .inr before
  · have same : e' = e := only e' inFile hkey (by rw [hid, storedToo.text]; simp)
    left
    refine (ha.putRenderings hb).languages.eq_of_key_eq hu.mem ht ?_
    rw [entry, ← hid, same, hu.into, stored.into]

variable (inFile : a.InFile modId file e) (hkey : e.key = key)

include inFile hkey

/-- A key of which one entry is in the batch is read back with the text of the batch if
no other rendering is newer. -/
theorem lastRendering?_of_newest (ht : t ∈ b.renderings.rows)
    (stored : a.StoredBy language now rows t) (entry : t.entryId = e.id)
    (newest : ∀ u, a.Renders modId file language key u → boundText? rows u.entryId = none →
      notNewer u t = true) :
    lastRendering? (b.renderingHistory modId file language) key = some t.text := by
  refine (lastRendering?_eq_some_iff (ha.putRenderings hb)).mpr ⟨t, ?_, fun u hu => ?_, rfl⟩
  · exact ⟨ht, stored.into, e, (inFile_putRenderings_iff hb).mpr inFile, hkey, entry.symm⟩
  · rcases renders_cases_of_only hb ha only ht stored entry hu with rfl | ⟨before, unbound⟩
    · exact notNewer_refl u
    · exact newest u before unbound

/-- A key of which one entry is in the batch is read back as before if another rendering is newer
than that of the batch. -/
theorem lastRendering?_of_newer (past : a.NotAfter now) (ht : t ∈ b.renderings.rows)
    (stored : a.StoredBy language now rows t) (entry : t.entryId = e.id) {w : RenderingRow}
    (hw : a.Renders modId file language key w) (unbound : boundText? rows w.entryId = none)
    (newer : notNewer w t = false) :
    lastRendering? (b.renderingHistory modId file language) key =
      lastRendering? (a.renderingHistory modId file language) key := by
  have hbc := ha.putRenderings hb
  have renders : b.Renders modId file language key t :=
    ⟨ht, stored.into, e, (inFile_putRenderings_iff hb).mpr inFile, hkey, entry.symm⟩
  cases hlast : lastRendering? (b.renderingHistory modId file language) key with
  | none => exact absurd renders ((lastRendering?_eq_none_iff hbc).mp hlast t)
  | some last =>
    obtain ⟨z, hz, greatest, rfl⟩ := (lastRendering?_eq_some_iff hbc).mp hlast
    -- The newest is not of the batch, for something of before is newer than that.
    have before : a.Renders modId file language key z := by
      rcases renders_cases_of_only hb ha only ht stored entry hz with rfl | ⟨before, -⟩
      · rw [greatest w (hw.of_unbound hb unbound)] at newer
        cases newer
      · exact before
    symm
    refine (lastRendering?_eq_some_iff ha).mpr ⟨z, before, fun u hu => ?_, rfl⟩
    by_cases unbound : boundText? rows u.entryId = none
    · exact greatest u (hu.of_unbound hb unbound)
    · -- What the batch replaced is no newer than what replaced it.
      obtain ⟨e', inFile', hkey', hid'⟩ := hu.entry
      have same : e' = e := only e' inFile' hkey' (by rw [hid']; exact unbound)
      have replaced : notNewer u t = true :=
        stored.notNewer_of_replaced ha past hu.mem (by rw [entry, ← hid', same]) hu.into
      exact notNewer_trans u t z replaced (greatest t renders)

variable {text : String} (bound : boundText? rows e.id = some text)

include bound

/-- If the entry had no rendering before, the key is read back with the text of the
batch, since a new rendering comes after all of the same time. -/
theorem lastRendering?_of_bound_of_new (past : a.NotAfter now)
    (new : ∀ u ∈ a.renderings.rows, u.entryId ≠ e.id) :
    lastRendering? (b.renderingHistory modId file language) key = some text := by
  obtain ⟨t, ht, stored, entry, rfl⟩ := exists_storedBy hb bound
  apply lastRendering?_of_newest hb ha only inFile hkey ht stored entry
  intro u hu _
  have time := past.renderings u hu.mem
  have id : u.id < t.id := by
    rcases stored.id with new | ⟨w, hw, -, sameEntry, -⟩
    · exact Int.lt_of_le_of_lt (ha.renderings.counted u hu.mem).2 new
    · exact absurd (sameEntry.trans entry) (new w hw)
  have now := stored.time
  simp only [notNewer, decide_eq_true_eq]
  grind

/-- If all renderings of before are of earlier times, the key is read back with the text
of the batch. -/
theorem lastRendering?_of_bound_of_lt (past : ∀ u ∈ a.renderings.rows, u.translatedAt < now) :
    lastRendering? (b.renderingHistory modId file language) key = some text := by
  obtain ⟨t, ht, stored, entry, rfl⟩ := exists_storedBy hb bound
  apply lastRendering?_of_newest hb ha only inFile hkey ht stored entry
  intro u hu _
  have time := past u hu.mem
  rw [← stored.time] at time
  simp only [notNewer, decide_eq_true_eq]
  exact .inl time

/-- In any case a key of which one entry is in the batch is read back with the text of
the batch, or as before, by another rendering of the same time. -/
theorem lastRendering?_of_bound (past : a.NotAfter now) :
    lastRendering? (b.renderingHistory modId file language) key = some text ∨
      ∃ other, lastRendering? (b.renderingHistory modId file language) key = some other ∧
        lastRendering? (a.renderingHistory modId file language) key = some other := by
  obtain ⟨t, ht, stored, entry, rfl⟩ := exists_storedBy hb bound
  by_cases newest : ∀ u, a.Renders modId file language key u →
      boundText? rows u.entryId = none → notNewer u t = true
  · exact .inl (lastRendering?_of_newest hb ha only inFile hkey ht stored entry newest)
  · right
    simp only [not_forall, exists_prop, Bool.not_eq_true] at newest
    obtain ⟨w, hw, unbound, newer⟩ := newest
    rw [lastRendering?_of_newer hb ha only inFile hkey past ht stored entry hw unbound newer]
    cases hlast : lastRendering? (a.renderingHistory modId file language) key with
    | none => exact absurd hw ((lastRendering?_eq_none_iff ha).mp hlast w)
    | some last => exact ⟨last, rfl, rfl⟩

end ReadBack

end Archive

end LocalizationMemory
