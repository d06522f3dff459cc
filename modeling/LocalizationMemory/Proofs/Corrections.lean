import LocalizationMemory.Proofs.Alike
import LocalizationMemory.Proofs.Archive.Archiving
import LocalizationMemory.Proofs.Reachability

/-!
# What an editor sees of corrections

Corrections are stored for the entries of the newest version, and what is read back of a
key is its newest rendering in all versions of the mod. A rendering that is replaced keeps
its id, and ids decide between renderings of one time. So a correction is read back at
once, unless the entry had a rendering already and one of the same key in another version
was first stored later and is of the very time of the correction: such a correction is
*outrun*, and the key is read as before until the clock has advanced.

## Main definitions

* `lastCorrection?` — the rendering that corrections give a key last
* `Archive.Outrun` — corrections of a key are outrun
* `ArchivedEntry.CorrectedTo` — what corrections make of an item that is read

## Main results

* `Archive.boundText?_correctionTargets` — to an entry the last correction of its key is bound
* `Archive.lastRendering?_of_uncorrected`, `Archive.lastRendering?_of_outrun`,
  `Archive.lastRendering?_of_corrected` — what is read back of a key after corrections
* `Archive.Reached.corrections_visible_iff` — when all corrections are visible at once
* `Archive.Reached.correction_outrun` — one that is not
-/

namespace LocalizationMemory

/-- The rendering that corrections give a key last. -/
def lastCorrection? (corrections : List Correction) (key : String) : Option String :=
  (corrections.reverse.find? (·.key == key)).map (·.rendering)

theorem lastCorrection?_cons (c : Correction) (r : List Correction) (key : String) :
    lastCorrection? (c :: r) key =
      (lastCorrection? r key).or (if c.key = key then some c.rendering else none) := by
  rw [lastCorrection?, lastCorrection?, List.reverse_cons, List.find?_append, Option.map_or]
  by_cases same : c.key = key <;> simp [same]

/-- What corrections make of an item that is read: where its key is outrun or not corrected it
stays, and otherwise it has the rendering given last. -/
structure ArchivedEntry.CorrectedTo (corrections : List Correction) (outrun : String → Prop)
    (before after : ArchivedEntry) : Prop where
  key : after.key = before.key
  source : after.source = before.source
  others : lastCorrection? corrections before.key = none → after.rendering = before.rendering
  hidden : outrun before.key → after.rendering = before.rendering
  visible : ¬ outrun before.key → ∀ text, lastCorrection? corrections before.key = some text →
    after.rendering = some text

namespace Archive

variable {a b : Archive} {modName path language : String} {now : Millis}
  {corrections : List Correction} {v : VersionRow} {e : EntryRow}

/-- Corrections of a key at a time are outrun: the entry of the key in the newest version has a
rendering, and another one of the key is of this time and was first stored later. -/
def Outrun (a : Archive) (modName path language : String) (now : Millis) (key : String) : Prop :=
  ∃ v e t u, a.latestVersionNamed? modName = some v ∧ e ∈ a.entriesOfFile v.id (baseName path) ∧
    e.key = key ∧ t ∈ a.renderings.rows ∧ t.entryId = e.id ∧ t.language = language ∧
    a.Renders v.modId (baseName path) language key u ∧ u.translatedAt = now ∧ t.id < u.id

/-- Nothing is outrun once the clock has advanced. -/
theorem not_outrun_of_lt (past : ∀ t ∈ a.renderings.rows, t.translatedAt < now) (key : String) :
    ¬ a.Outrun modName path language now key := by
  rintro ⟨_, _, _, u, -, -, -, -, -, -, renders, time, -⟩
  exact Int.ne_of_lt (past u renders.mem) time

/-! ### What corrections reach -/

theorem entryWithKey?_eq_some_iff {entries : List EntryRow}
    (distinct : (entries.map (·.key)).Nodup) {key : String} :
    entryWithKey? entries key = some e ↔ e ∈ entries ∧ e.key = key := by
  constructor
  · intro found
    exact ⟨List.mem_reverse.mp (List.mem_of_find?_eq_some found),
      by simpa using List.find?_some found⟩
  · rintro ⟨mem, rfl⟩
    cases found : entryWithKey? entries e.key with
    | none =>
      have absent := List.find?_eq_none.mp found e (List.mem_reverse.mpr mem)
      exact absurd (beq_self_eq_true e.key) absent
    | some other =>
      have same : other.key = e.key := by simpa using List.find?_some found
      have hother := List.mem_reverse.mp (List.mem_of_find?_eq_some found)
      rw [List.inj_on_of_nodup_map distinct hother mem same]

/-- To an entry of the file the last correction of its key is bound. -/
theorem boundText?_correctionTargets (ids : a.entries.Unique (·.id))
    (distinct : ((a.entriesOfFile v.id (baseName path)).map (·.key)).Nodup)
    (he : e ∈ a.entriesOfFile v.id (baseName path)) :
    boundText? (a.correctionTargets v.id path corrections) e.id =
      lastCorrection? corrections e.key := by
  have hrow := (mem_entriesOfFile_iff.mp he).1
  induction corrections with
  | nil => rfl
  | cons c r ih =>
    rw [lastCorrection?_cons, ← ih]
    simp only [correctionTargets, List.filterMap_cons]
    cases found : entryWithKey? (a.entriesOfFile v.id (baseName path)) c.key with
    | none =>
      have differs : c.key ≠ e.key := by
        intro same
        rw [(entryWithKey?_eq_some_iff distinct).mpr ⟨he, same.symm⟩] at found
        cases found
      simp [differs]
    | some e' =>
      obtain ⟨he', key⟩ := (entryWithKey?_eq_some_iff distinct).mp found
      have hrow' := (mem_entriesOfFile_iff.mp he').1
      have own : e'.id = e.id ↔ c.key = e.key := by
        rw [← key]
        constructor
        · exact fun id => congrArg _ (ids.eq_of_key_eq hrow' hrow id)
        · exact fun same => congrArg _ (List.inj_on_of_nodup_map distinct he' he same)
      simp only [Option.map_some, boundText?, own]

theorem Consistent.boundText?_correctionTargets (ha : a.Consistent)
    (he : e ∈ a.entriesOfFile v.id (baseName path)) :
    boundText? (a.correctionTargets v.id path corrections) e.id =
      lastCorrection? corrections e.key :=
  Archive.boundText?_correctionTargets ha.entries.unique
    (ha.nodup_key_entriesOfFile v.id (baseName path)) he

/-- Corrections reach entries of the file in the version alone. -/
theorem exists_target_of_bound {id : RowId}
    (bound : boundText? (a.correctionTargets v.id path corrections) id ≠ none) :
    ∃ e ∈ a.entriesOfFile v.id (baseName path), e.id = id := by
  obtain ⟨text, ht⟩ := Option.ne_none_iff_exists'.mp bound
  obtain ⟨c, -, target⟩ := List.mem_filterMap.mp (mem_of_boundText?_eq_some ht)
  obtain ⟨e, found, row⟩ := Option.map_eq_some_iff.mp target
  exact ⟨e, List.mem_reverse.mp (List.mem_of_find?_eq_some found), congrArg Prod.fst row⟩

/-- Of a key corrections reach one entry at most. -/
theorem eq_of_target (ha : a.Consistent) (he : e ∈ a.entriesOfFile v.id (baseName path))
    {modId : RowId} {e' : EntryRow} (inFile : a.InFile modId (baseName path) e')
    (key : e'.key = e.key)
    (bound : boundText? (a.correctionTargets v.id path corrections) e'.id ≠ none) : e' = e := by
  obtain ⟨e'', he'', same⟩ := exists_target_of_bound bound
  obtain ⟨hrow, version, file⟩ := mem_entriesOfFile_iff.mp he
  obtain ⟨hrow'', version'', -⟩ := mem_entriesOfFile_iff.mp he''
  obtain rfl : e'' = e' := ha.entries.unique.eq_of_key_eq hrow'' inFile.mem same
  exact ha.entry_unique hrow'' hrow (version''.trans version.symm) (inFile.file.trans file.symm) key

/-! ### What is read back -/

section Read

variable (ha : a.Consistent) (latest : a.latestVersionNamed? modName = some v)
  (he : e ∈ a.entriesOfFile v.id (baseName path))
  (hb : putRenderings language now (a.correctionTargets v.id path corrections) a = .ok b)

include ha latest he hb

omit hb in
theorem inFile_of_latest : a.InFile v.modId (baseName path) e := by
  obtain ⟨hrow, version, file⟩ := mem_entriesOfFile_iff.mp he
  obtain ⟨-, -, -, newest⟩ := (latestVersionNamed?_eq_some_iff ha).mp latest
  exact ⟨hrow, ⟨v, newest.mem, version.symm, rfl⟩, file⟩

omit latest in
/-- A key that is not corrected is read back as before. -/
theorem lastRendering?_of_uncorrected (none : lastCorrection? corrections e.key = none) :
    lastRendering? (b.renderingHistory v.modId (baseName path) language) e.key =
      lastRendering? (a.renderingHistory v.modId (baseName path) language) e.key := by
  apply lastRendering?_of_unbound hb ha
  intro e' inFile key
  by_contra reached
  rw [eq_of_target ha he inFile key reached, ha.boundText?_correctionTargets he] at reached
  exact reached none

variable (past : a.NotAfter now) {text : String}
  (given : lastCorrection? corrections e.key = some text)

include past given

/-- A key that is outrun is read back as before. -/
theorem lastRendering?_of_outrun (outrun : a.Outrun modName path language now e.key) :
    lastRendering? (b.renderingHistory v.modId (baseName path) language) e.key =
      lastRendering? (a.renderingHistory v.modId (baseName path) language) e.key := by
  have inFile := inFile_of_latest ha latest he
  have only : ∀ e', a.InFile v.modId (baseName path) e' → e'.key = e.key →
      boundText? (a.correctionTargets v.id path corrections) e'.id ≠ none → e' = e :=
    fun _ => eq_of_target ha he
  obtain ⟨v', e', w, u, latest', he', key, hw, entry, into, renders, time, later⟩ := outrun
  obtain rfl := Option.some.inj (latest.symm.trans latest')
  obtain rfl : e' = e :=
    List.inj_on_of_nodup_map (ha.nodup_key_entriesOfFile v.id (baseName path)) he' he key
  obtain ⟨t, ht, stored, entry', -⟩ :=
    exists_storedBy hb ((ha.boundText?_correctionTargets he).trans given)
  -- The correction replaces a rendering and takes over its id, so it is older than the other.
  obtain ⟨new, -, rows⟩ := rows_putRenderings hb
  obtain ⟨keptId, keptEntry, keptLanguage⟩ := RenderingRow.after_keeps language now
    (a.correctionTargets v.id path corrections) w
  have replaced : w.after language now (a.correctionTargets v.id path corrections) = t := by
    refine (ha.putRenderings hb).languages.eq_of_key_eq ?_ ht ?_
    · rw [rows]
      exact List.mem_append_left _ (List.mem_map_of_mem hw)
    · rw [keptEntry, keptLanguage, entry, entry', into, stored.into]
  have newer : notNewer u t = false := by
    have sameId : t.id = w.id := by rw [← replaced, keptId]
    have sameTime := stored.time
    simp only [notNewer, decide_eq_false_iff_not]
    grind
  have unbound : boundText? (a.correctionTargets v.id path corrections) u.entryId = none := by
    by_contra reached
    obtain ⟨e'', inFile'', key'', hid⟩ := renders.entry
    have same : e'' = e' := only e'' inFile'' key'' (by rw [hid]; exact reached)
    have equal : u = w := by
      refine ha.languages.eq_of_key_eq renders.mem hw ?_
      rw [← hid, same, entry, renders.into, into]
    exact Int.lt_irrefl _ (equal ▸ later)
  exact lastRendering?_of_newer hb ha only inFile rfl past ht stored entry' renders unbound newer

/-- A key that is corrected and not outrun is read back with the rendering given last. -/
theorem lastRendering?_of_corrected (free : ¬ a.Outrun modName path language now e.key) :
    lastRendering? (b.renderingHistory v.modId (baseName path) language) e.key = some text := by
  obtain ⟨t, ht, stored, entry, rfl⟩ :=
    exists_storedBy hb ((ha.boundText?_correctionTargets he).trans given)
  refine lastRendering?_of_newest hb ha (fun _ => eq_of_target ha he)
    (inFile_of_latest ha latest he) rfl ht stored entry fun u renders _ => ?_
  have time := past.renderings u renders.mem
  have sameTime := stored.time
  -- Of renderings of this time none has a greater id, or the key would be outrun.
  have id : u.translatedAt = now → u.id ≤ t.id := by
    intro same
    rcases stored.id with new | ⟨w, hw, sameId, sameEntry, into⟩
    · exact Int.le_trans (ha.renderings.counted u renders.mem).2 (Int.le_of_lt new)
    · by_contra later
      refine free ⟨v, e, w, u, latest, he, rfl, hw, sameEntry.trans entry, into, renders, same, ?_⟩
      rw [sameId]
      exact Int.not_le.mp later
  simp only [notNewer, decide_eq_true_eq]
  grind

end Read

end Archive

namespace Action

open Archive

variable {a b : Archive} {access : Access} {modName path language : String}
  {corrections : List Correction} {n : Nat}

/-- Corrections are stored for the entries that they reach in the newest version, if there is
one. -/
theorem ends_correct_iff :
    (correct modName path corrections language).Ends access a n b ↔ a.layout.hasTables = true ∧
      match a.latestVersionNamed? modName with
      | none => n = 0 ∧ b = a
      | some v => a.layout.hasFilePaths = true ∧
          (putRenderings language (a.correctionTargets v.id path corrections)).Ends access a n b := by
  simp only [correct, ends_bind_iff, ends_latestVersionNamed_iff]
  constructor
  · rintro ⟨_, c, ⟨tables, rfl, rfl⟩, rest⟩
    refine ⟨tables, ?_⟩
    cases latest : c.latestVersionNamed? modName with
    | none => simpa [latest] using rest
    | some v =>
      rw [latest] at rest
      obtain ⟨_, d, ⟨paths, rfl, rfl⟩, put⟩ := by
        simpa only [ends_bind_iff, ends_readFilesBy_iff] using rest
      exact ⟨paths, put⟩
  · rintro ⟨tables, rest⟩
    refine ⟨_, a, ⟨tables, rfl, rfl⟩, ?_⟩
    cases latest : a.latestVersionNamed? modName with
    | none => simpa [latest] using rest
    | some v =>
      rw [latest] at rest
      simp only [ends_bind_iff, ends_readFilesBy_iff]
      exact ⟨_, a, ⟨rest.1, rfl, rfl⟩, rest.2⟩

/-- Corrections that are stored correct every item that is read, unless its key is outrun. -/
theorem correctedTo_of_correct (ha : a.Consistent) (past : a.NotAfter access.now)
    (ends : (correct modName path corrections language).Ends access a n b) :
    b.Consistent ∧ b.layout = a.layout ∧
      List.Forall₂ (ArchivedEntry.CorrectedTo corrections
        (a.Outrun modName path language access.now))
        (a.archivedEntries modName path language) (b.archivedEntries modName path language) := by
  obtain ⟨-, stored⟩ := ends_correct_iff.mp ends
  cases latest : a.latestVersionNamed? modName with
  | none =>
    -- Without a version nothing is stored and nothing is read.
    rw [latest] at stored
    obtain ⟨-, rfl⟩ := stored
    have nothing : b.archivedEntries modName path language = [] := by
      simp [Archive.archivedEntries, latest]
    rw [nothing]
    exact ⟨ha, rfl, .nil⟩
  | some v =>
    rw [latest] at stored
    obtain ⟨hb, -, -⟩ := ends_putRenderings_iff.mp stored.2
    have frame := putRenderings_frame hb
    have latest' : b.latestVersionNamed? modName = some v := by
      rw [frame]
      exact latest
    have entries : b.entriesOfFile v.id (baseName path) = a.entriesOfFile v.id (baseName path) := by
      rw [frame]
      rfl
    refine ⟨ha.putRenderings hb, by rw [frame], ?_⟩
    rw [archivedEntries_of_latest latest, archivedEntries_of_latest latest', entriesWithHistory,
      entriesWithHistory, entries]
    refine List.forall₂_map_left_iff.mpr
      (List.forall₂_map_right_iff.mpr (List.forall₂_same.mpr fun e he => ?_))
    have others := lastRendering?_of_uncorrected ha he hb
    refine ⟨rfl, rfl, others, fun fast => ?_, fun free text given =>
      lastRendering?_of_corrected ha latest he hb past given free⟩
    cases given : lastCorrection? corrections e.key with
    | none => exact others given
    | some text => exact lastRendering?_of_outrun ha latest he hb past given fast

end Action

open Archive in
/-- Under a clock that never goes back, corrections that were stored are read back at once, but for
keys that are outrun, and all else is read as before. So all corrections are visible exactly if the
outrun ones change nothing; in particular, if the clock has advanced since the last rendering. -/
theorem Archive.Reached.corrections_visible_iff {now : Millis} {a b : Archive} {access : Access}
    {modName path language : String} {corrections : List Correction} {n : Nat}
    (reached : a.Reached (· ≤ ·) now) (past : now ≤ access.now)
    (ends : (Action.correct modName path corrections language).Ends access a n b) :
    let outrun := a.Outrun modName path language access.now
    let before := a.archivedEntries modName path language
    let after := b.archivedEntries modName path language
    (∀ access', (Action.archivedEntries modName path language).Ends access' a before a ∧
      (Action.archivedEntries modName path language).Ends access' b after b) ∧
    List.Forall₂ (ArchivedEntry.CorrectedTo corrections outrun) before after ∧
    ((∀ item ∈ after, ∀ text, lastCorrection? corrections item.key = some text →
        item.rendering = some text) ↔
      ∀ item ∈ before, outrun item.key → ∀ text,
        lastCorrection? corrections item.key = some text → item.rendering = some text) ∧
    ((∀ t ∈ a.renderings.rows, t.translatedAt < access.now) → ∀ key, ¬ outrun key) := by
  intro outrun before after
  have ha := reached.isConsistent
  have current := ha.layout_eq_current (Action.ends_correct_iff.mp ends).1
  obtain ⟨hb, layout, items⟩ :=
    Action.correctedTo_of_correct ha (reached.notAfter.mono past) ends
  refine ⟨fun access' => ⟨(Action.ends_archivedEntries_iff ha).mpr ⟨current, rfl, rfl⟩,
    (Action.ends_archivedEntries_iff hb).mpr ⟨layout.trans current, rfl, rfl⟩⟩, items, ?_,
    fun earlier key => not_outrun_of_lt earlier key⟩
  refine (forall_mem_iff_of_forall₂ (fun x y item => ?_) items).symm
  rw [item.key]
  by_cases fast : outrun x.key
  · simp only [fast, forall_const, item.hidden fast]
  · simp only [fast, false_implies, true_iff]
    exact item.visible fast

/-- A rendering is replaced twice over, by the last of two corrections of its key, in the
millisecond after a rendering of an older version was stored. -/
theorem Archive.Reached.corrections_visible_iff_of_two_corrections :
    ∃ (a b : Archive) (n : Nat), a.Reached (· ≤ ·) 5 ∧
      (Action.correct "Alpha" "dir/a.yml" [⟨"k", "C"⟩, ⟨"k", "D"⟩, ⟨"m", "E"⟩] "ko").Ends
        { now := 6 } a n b ∧
      a.archivedEntries "Alpha" "a.yml" "ko" = [⟨"k", "Y", some "B"⟩, ⟨"l", "Z", none⟩] ∧
      (Action.archivedEntries "Alpha" "dir/a.yml" "ko").Ends { now := 6 } b
        [⟨"k", "Y", some "D"⟩, ⟨"l", "Z", none⟩] b := by
  let s : Store := { settings := {} }
  let former : List SourceFile := [⟨"a.yml", [⟨"k", none⟩], ["X"]⟩]
  let latter : List SourceFile := [⟨"a.yml", [⟨"k", none⟩, ⟨"l", none⟩], ["Y", "Z"]⟩]
  let ops : List Operation := [.archiveResults 1 (.ofList [("a.yml", ["B"])]) former "ko",
    .correct "Alpha" "a.yml" [⟨"k", "A"⟩] "ko", .snapshot 1 latter, .snapshot 1 former,
    .ensureMod "Alpha" none]
  let corrections : List Correction := [⟨"k", "C"⟩, ⟨"k", "D"⟩, ⟨"m", "E"⟩]
  obtain ⟨a, found, earlier, read, again, result⟩ : ∃ a ∈ (s.operateAll ops).archive? 0,
      (∀ t ∈ a.renderings.rows, t.translatedAt < 6) ∧
      a.archivedEntries "Alpha" "a.yml" "ko" = [⟨"k", "Y", some "B"⟩, ⟨"l", "Z", none⟩] ∧
      a.archivedEntries "Alpha" "dir/a.yml" "ko" = [⟨"k", "Y", some "B"⟩, ⟨"l", "Z", none⟩] ∧
      (Action.correct "Alpha" "dir/a.yml" corrections "ko" { now := 6 } a).result = .ok 2 := by
    decide +kernel
  have reached : a.Reached (· ≤ ·) 5 := ⟨_, 0, s.reached_operateAll ops, found⟩
  obtain ⟨reads, items, -, free⟩ := Archive.Reached.corrections_visible_iff reached
    (by decide : (5 : Int) ≤ 6) (⟨result, rfl⟩ : (Action.correct "Alpha" "dir/a.yml" corrections
      "ko").Ends { now := 6 } a 2 _)
  refine ⟨a, _, 2, reached, ⟨result, rfl⟩, read, ?_⟩
  rw [again] at items
  obtain ⟨x, rest, first, others, whole⟩ := List.forall₂_cons_left_iff.mp items
  obtain ⟨y, none, second, nothing, rfl⟩ := List.forall₂_cons_left_iff.mp others
  obtain rfl := List.forall₂_nil_left_iff.mp nothing
  have corrected : x = ⟨"k", "Y", some "D"⟩ := by
    obtain ⟨key, source, rendering⟩ := x
    obtain rfl := first.key
    obtain rfl := first.source
    exact congrArg _ (first.visible (free earlier "k") "D" rfl)
  have kept : y = ⟨"l", "Z", none⟩ := by
    obtain ⟨key, source, rendering⟩ := y
    obtain rfl := second.key
    obtain rfl := second.source
    exact congrArg _ (second.others rfl)
  have ends := (reads { now := 6 }).2
  rw [whole, corrected, kept] at ends
  exact ends

/-- A correction in the millisecond in which a rendering of an older version was stored, for an
entry that had a rendering before that: the older version is read. -/
theorem Archive.Reached.correction_outrun :
    ∃ (a b : Archive) (n : Nat), a.Reached (· ≤ ·) 5 ∧
      (Action.correct "Alpha" "a.yml" [⟨"k", "C"⟩] "ko").Ends { now := 5 } a n b ∧ n = 1 ∧
      (Action.archivedEntries "Alpha" "a.yml" "ko").Ends { now := 5 } b [⟨"k", "Y", some "B"⟩] b := by
  let s : Store := { settings := {} }
  let former : List SourceFile := [⟨"a.yml", [⟨"k", none⟩], ["X"]⟩]
  let ops : List Operation := [.archiveResults 1 (.ofList [("a.yml", ["B"])]) former "ko",
    .correct "Alpha" "a.yml" [⟨"k", "A"⟩] "ko", .snapshot 1 [⟨"a.yml", [⟨"k", none⟩], ["Y"]⟩],
    .snapshot 1 former, .ensureMod "Alpha" none]
  let correct := Action.correct "Alpha" "a.yml" [⟨"k", "C"⟩] "ko" { now := 5 }
  let read := Action.archivedEntries "Alpha" "a.yml" "ko" { now := 5 }
  obtain ⟨a, found, corrected, result, left⟩ : ∃ a ∈ (s.operateAll ops).archive? 0,
      (correct a).result = .ok 1 ∧
      (read (correct a).archive).result = .ok [⟨"k", "Y", some "B"⟩] ∧
      (read (correct a).archive).archive = (correct a).archive := by
    decide +kernel
  exact ⟨a, _, 1, ⟨_, 0, s.reached_operateAll ops, found⟩, ⟨corrected, rfl⟩, rfl, result, left⟩

end LocalizationMemory
