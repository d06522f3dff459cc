import LocalizationMemory.Proofs.Archive.Lineage
import LocalizationMemory.Proofs.Corrections
import LocalizationMemory.Proofs.NewestRendering
import LocalizationMemory.Proofs.WholeBatch

/-!
# What corrections reach, and what they leave alone

A correction names a key to the letter. It reaches the entry that has this key in the file
of the base name, in the version of the mod with the greatest stamp, and nothing else: no
other revision of the key, no entry without a file, no other file, version or mod. A key
may be corrected several times in one request; each time is counted, and the last one
stays. Whether an archive is of today or has a past plays no part.

## Main definitions

* `Archive.InNewest` — an entry is of a file of the newest version of a mod
* `Archive.CanCorrect` — a correction names the key of such an entry
* `Archive.Corrected` — how an archive differs by corrections

## Main results

* `Archive.Sound.latestVersionNamed?_eq_some_iff` — the newest version, by the rows
* `Archive.Sound.length_correctionTargets` — each correction that reaches an entry counts
* `Archive.Arises.corrects_exactly` — what corrections do
-/

namespace LocalizationMemory

/-- The last correction of a key is the one after which there is none. -/
theorem lastCorrection?_of_last {earlier later : List Correction} {key text : String}
    (last : ∀ c ∈ later, c.key ≠ key) :
    lastCorrection? (earlier ++ ⟨key, text⟩ :: later) key = some text := by
  have none : later.reverse.find? (·.key == key) = none := by simpa using last
  simp [lastCorrection?, List.find?_append, none]

namespace Archive

variable {a b : Archive} {modName path file language : String} {corrections : List Correction}
  {v : VersionRow} {e : EntryRow} {row : EntryRendering} {now : Millis}
  {versionId : RowId}

/-! ### What is of the newest version -/

/-- An entry is of a file of the newest version of a mod. -/
def InNewest (a : Archive) (modName file : String) (e : EntryRow) : Prop :=
  e ∈ a.entries.rows ∧ e.file = some file ∧
    ∃ m ∈ a.mods.rows, m.name = modName ∧ ∃ v ∈ a.versions.rows, v.modId = m.id ∧
      (∀ w ∈ a.versions.rows, w.modId = m.id → w.stamp ≤ v.stamp) ∧ e.versionId = v.id

instance : Decidable (a.InNewest modName file e) :=
  inferInstanceAs <| Decidable <| e ∈ a.entries.rows ∧ e.file = some file ∧
    ∃ m ∈ a.mods.rows, m.name = modName ∧ ∃ v ∈ a.versions.rows, v.modId = m.id ∧
      (∀ w ∈ a.versions.rows, w.modId = m.id → w.stamp ≤ v.stamp) ∧ e.versionId = v.id

/-- A correction names the key of an entry of a file of the newest version of a mod, to the
letter. -/
def CanCorrect (a : Archive) (modName file : String) (c : Correction) : Prop :=
  ∃ e ∈ a.entries.rows, a.InNewest modName file e ∧ e.key = c.key

instance : DecidablePred (a.CanCorrect modName file) := fun c =>
  List.decidableBEx (p := fun e => a.InNewest modName file e ∧ e.key = c.key) a.entries.rows

theorem Sound.latestVersionNamed?_eq_some_iff (h : a.Sound) :
    a.latestVersionNamed? modName = some v ↔
      ∃ m ∈ a.mods.rows, m.name = modName ∧ v ∈ a.versions.rows ∧ v.modId = m.id ∧
        ∀ w ∈ a.versions.rows, w.modId = m.id → w.stamp ≤ v.stamp := by
  simp only [latestVersionNamed?, Option.bind_eq_some_iff, mod?_eq_some_iff h.modNames,
    latestVersion?_eq_some_iff h.versions.unique, isNewest_iff_stamp, and_assoc]

/-- The entries of a file of the newest version are those of the version that is read. -/
theorem Sound.inNewest_iff (h : a.Sound) (latest : a.latestVersionNamed? modName = some v) :
    a.InNewest modName file e ↔ e ∈ a.entriesOfFile v.id file := by
  rw [mem_entriesOfFile_iff, InNewest]
  constructor
  · rintro ⟨he, hfile, m, hm, name, w, hw, ofMod, newest, version⟩
    have latest' := h.latestVersionNamed?_eq_some_iff.mpr ⟨m, hm, name, hw, ofMod, newest⟩
    obtain rfl := Option.some.inj (latest.symm.trans latest')
    exact ⟨he, version, hfile⟩
  · rintro ⟨he, version, hfile⟩
    obtain ⟨m, hm, name, hv, ofMod, newest⟩ := h.latestVersionNamed?_eq_some_iff.mp latest
    exact ⟨he, hfile, m, hm, name, v, hv, ofMod, newest, version⟩

/-- Without a newest version there is no entry of it. -/
theorem Sound.not_inNewest (h : a.Sound) (latest : a.latestVersionNamed? modName = none) :
    ¬ a.InNewest modName file e := by
  rintro ⟨-, -, m, hm, name, v, hv, ofMod, newest, -⟩
  rw [h.latestVersionNamed?_eq_some_iff.mpr ⟨m, hm, name, hv, ofMod, newest⟩] at latest
  cases latest

/-! ### The entries that are reached -/

theorem mem_correctionTargets_iff (distinct :
      ((a.entriesOfFile versionId (baseName path)).map (·.key)).Nodup) :
    row ∈ a.correctionTargets versionId path corrections ↔
      ∃ c ∈ corrections, ∃ e ∈ a.entriesOfFile versionId (baseName path),
        e.key = c.key ∧ (e.id, c.rendering) = row := by
  simp only [correctionTargets, List.mem_filterMap, Option.map_eq_some_iff,
    entryWithKey?_eq_some_iff distinct, and_assoc]

/-- Each correction that reaches an entry counts, whether its key was corrected before or not. -/
theorem Sound.length_correctionTargets (h : a.Sound)
    (latest : a.latestVersionNamed? modName = some v) :
    (a.correctionTargets v.id path corrections).length =
      corrections.countP fun c => a.CanCorrect modName (baseName path) c := by
  have distinct := h.nodup_key_entriesOfFile v.id (baseName path)
  have reaches (c : Correction) : a.CanCorrect modName (baseName path) c ↔
      (entryWithKey? (a.entriesOfFile v.id (baseName path)) c.key).isSome = true := by
    rw [Option.isSome_iff_exists]
    simp only [entryWithKey?_eq_some_iff distinct, ← h.inNewest_iff latest]
    exact ⟨fun ⟨e, _, own, key⟩ => ⟨e, own, key⟩, fun ⟨e, own, key⟩ => ⟨e, own.1, own, key⟩⟩
  rw [correctionTargets, List.length_filterMap_eq_countP]
  refine List.countP_congr fun c _ => ?_
  rw [decide_eq_true_iff, reaches, Option.isSome_map]

/-! ### What corrections do -/

/-- An archive differs from another by corrections that were stored, and so many of them. -/
structure Corrected (a : Archive) (modName file language : String) (now : Millis)
    (corrections : List Correction) (n : Nat) (b : Archive) : Prop where
  counted : n = corrections.countP fun c => a.CanCorrect modName file c
  missing : (∀ m ∈ a.mods.rows, m.name = modName → ∀ v ∈ a.versions.rows, v.modId ≠ m.id) → n = 0
  none : n = 0 → b = a
  /-- An entry that is reached has one rendering, with the text that its key was given last. -/
  reached : ∀ e, a.InNewest modName file e → ∀ earlier text later,
    corrections = earlier ++ ⟨e.key, text⟩ :: later → (∀ c ∈ later, c.key ≠ e.key) →
      ∃ t ∈ b.renderings.rows, t.entryId = e.id ∧ t.language = language ∧ t.text = text ∧
        t.translatedAt = now ∧
          ∀ u ∈ b.renderings.rows, u.entryId = e.id → u.language = language → u = t
  /-- A rendering of another entry, or into another language, is as it was. -/
  others : ∀ t, (t.language = language → ∀ e, a.InNewest modName file e → e.id = t.entryId →
    ∀ c ∈ corrections, c.key ≠ e.key) → (t ∈ b.renderings.rows ↔ t ∈ a.renderings.rows)
  /-- A rendering that was there stays in its place, under its id. -/
  kept : a.renderings.rows.map (·.place) <+: b.renderings.rows.map (·.place)
  frame : b = { a with renderings := b.renderings }

/-- Without a newest version nothing is reached, and storing nothing is right. -/
theorem Sound.corrected_of_none (h : a.Sound) (latest : a.latestVersionNamed? modName = none) :
    a.Corrected modName file language now corrections 0 a := by
  have unreached (e : EntryRow) : ¬ a.InNewest modName file e := h.not_inNewest latest
  refine ⟨?_, fun _ => rfl, fun _ => rfl, fun e own => absurd own (unreached e),
    fun _ _ => Iff.rfl, List.prefix_rfl, rfl⟩
  refine (List.countP_eq_zero.mpr fun c _ reaches => ?_).symm
  obtain ⟨e, -, own, -⟩ := of_decide_eq_true reaches
  exact unreached e own

/-- The corrections that reach an entry of the newest version are stored as one batch. -/
theorem Sound.corrected_of_putRenderings (h : a.Sound)
    (latest : a.latestVersionNamed? modName = some v)
    (hb : Archive.putRenderings language now (a.correctionTargets v.id path corrections) a =
      .ok b) :
    a.Corrected modName (baseName path) language now corrections
      (a.correctionTargets v.id path corrections).length b := by
  have distinct := h.nodup_key_entriesOfFile v.id (baseName path)
  have languages := (h.putRenderings hb).languages
  have stores := stores_of_putRenderings hb languages
  refine ⟨h.length_correctionTargets latest, fun missing => ?_, fun zero => ?_, ?_, ?_,
    stores.kept, stores.frame⟩
  · obtain ⟨m, hm, name, hv, ofMod, -⟩ := h.latestVersionNamed?_eq_some_iff.mp latest
    exact absurd ofMod (missing m hm name v hv)
  · rw [List.length_eq_zero_iff.mp zero] at hb
    exact putRenderings_nil_eq_ok_iff.mp hb
  · intro e own earlier text later split last
    have he := (h.inNewest_iff latest).mp own
    have bound : boundText? (a.correctionTargets v.id path corrections) e.id = some text := by
      rw [boundText?_correctionTargets h.entries.unique distinct he, split]
      exact lastCorrection?_of_last last
    obtain ⟨t, ht, stored, entry, same⟩ := exists_storedBy hb bound
    refine ⟨t, ht, entry, stored.into, same, stored.time, fun u hu entry' into => ?_⟩
    refine languages.eq_of_key_eq hu ht ?_
    rw [entry, entry', into, stored.into]
  · intro t unreached
    refine stores.others t fun into row mem entry => ?_
    obtain ⟨c, hc, e, he, key, rfl⟩ := (mem_correctionTargets_iff distinct).mp mem
    exact unreached into e ((h.inNewest_iff latest).mpr he) entry c hc key.symm

/-- Nothing stands in the way of the batch: its entries are there, and no rule refuses it. -/
theorem Sound.exists_putRenderings_targets (h : a.Sound) (rules : a.rules = [])
    (versionId : RowId) (path language : String) (now : Millis) (corrections : List Correction) :
    ∃ b, Archive.putRenderings language now (a.correctionTargets versionId path corrections) a =
      .ok b := by
  refine exists_putRenderings language now rules fun row mem => ?_
  have distinct := h.nodup_key_entriesOfFile versionId (baseName path)
  obtain ⟨c, -, e, he, -, rfl⟩ := (mem_correctionTargets_iff distinct).mp mem
  exact ⟨e, (mem_entriesOfFile_iff.mp he).1, rfl⟩

/-- What corrections do in an archive of whatever past. Where the right to write can be had and no
rule refuses inserts, they are stored, and all that reach an entry are counted, with their
repetitions. An entry of the file in the newest version whose key is given to the letter has one
rendering into the language then, of the time of the request, with the text given last. Every other
rendering is as it was, in its place and under its id: of other keys, among them other revisions,
of entries without a file, of other files, versions and mods, and into other languages. Nothing
else has changed; and without the mod or a version of it nothing at all. -/
theorem Arises.corrects_exactly {access : Access} (arises : a.Arises)
    (paths : a.layout.hasFilePaths = true) (rules : a.rules = []) (free : access.CanWrite)
    (modName path language : String) (corrections : List Correction) :
    ∃ n b, (Action.correct modName path corrections language).Ends access a n b ∧
      a.Corrected modName (baseName path) language access.now corrections n b := by
  have h := arises.sound
  have tables := Layout.hasTables_of_hasFilePaths paths
  cases latest : a.latestVersionNamed? modName with
  | none =>
    refine ⟨0, a, Action.ends_correct_iff.mpr ⟨tables, ?_⟩, h.corrected_of_none latest⟩
    rw [latest]
    exact ⟨rfl, rfl⟩
  | some v =>
    obtain ⟨b, hb⟩ := h.exists_putRenderings_targets rules v.id path language access.now corrections
    refine ⟨_, b, Action.ends_correct_iff.mpr ⟨tables, ?_⟩, h.corrected_of_putRenderings latest hb⟩
    rw [latest]
    exact ⟨paths, Action.ends_putRenderings_iff.mpr ⟨hb, rfl, fun _ => ⟨free.1, tables, free.2⟩⟩⟩

/-- Of two versions the later one is corrected, of its entries only the one that has the key to the
letter and is in the file, and of two corrections of the key the last one stays. -/
theorem Arises.corrects_exactly_of_repeated :
    ∃ a b : Archive, a.Reached (· ≤ ·) 4 ∧
      a.assignFile { versionId := some 2, key := some "l" } none = .ok (1, b) ∧
      ∃ n c, (Action.correct "Alpha" "mods/a.yml"
          [⟨"k", "A"⟩, ⟨"k:", "B"⟩, ⟨"l", "C"⟩, ⟨"k", "D"⟩] "ko").Ends { now := 5 } b n c ∧
        b.Corrected "Alpha" "a.yml" "ko" 5 [⟨"k", "A"⟩, ⟨"k:", "B"⟩, ⟨"l", "C"⟩, ⟨"k", "D"⟩] n c ∧
        n = 2 ∧ ∃ t ∈ c.renderings.rows, t.entryId = 2 ∧ t.language = "ko" ∧ t.text = "D" := by
  let s : Store := { settings := {} }
  let ops : List Operation := [
    .snapshot 1 [⟨"a.yml", [⟨"k", none⟩, ⟨"k:1", none⟩, ⟨"l", none⟩], ["X", "Y", "Z"]⟩,
      ⟨"b.yml", [⟨"k", none⟩], ["W"]⟩],
    .putRenderings "ko" [(1, "P")], .snapshot 1 [⟨"a.yml", [⟨"k", none⟩], ["O"]⟩],
    .ensureMod "Alpha" none]
  let corrections : List Correction := [⟨"k", "A"⟩, ⟨"k:", "B"⟩, ⟨"l", "C"⟩, ⟨"k", "D"⟩]
  obtain ⟨a, found, p, changed, one, paths, paths', rules, count, e, -, own, key, id⟩ :
      ∃ a ∈ (s.operateAll ops).archive? 0,
        ∃ p ∈ (a.assignFile { versionId := some 2, key := some "l" } none).toOption,
          p.1 = 1 ∧ a.layout.hasFilePaths = true ∧ p.2.layout.hasFilePaths = true ∧
          p.2.rules = [] ∧ corrections.countP (fun c => p.2.CanCorrect "Alpha" "a.yml" c) = 2 ∧
          ∃ e ∈ p.2.entries.rows, p.2.InNewest "Alpha" "a.yml" e ∧ e.key = "k" ∧ e.id = 2 := by
    decide +kernel
  have reached : a.Reached (· ≤ ·) 4 := ⟨_, 0, s.reached_operateAll ops, found⟩
  obtain ⟨n, b⟩ := p
  obtain rfl : n = 1 := one
  have refiled := eq_ok_of_mem_toOption changed
  have arises : b.Arises := .assignFile reached.arises paths refiled
  have free : ({ now := 5 } : Access).CanWrite := ⟨by decide, rfl⟩
  have base : baseName "mods/a.yml" = "a.yml" := by decide +kernel
  obtain ⟨n, c, ends, corrected⟩ :=
    Arises.corrects_exactly arises paths' rules free "Alpha" "mods/a.yml" "ko" corrections
  rw [base] at corrected
  obtain ⟨t, ht, entry, into, text, -⟩ := corrected.reached e own
    [⟨"k", "A"⟩, ⟨"k:", "B"⟩, ⟨"l", "C"⟩] "D" [] (by rw [key]; rfl) (by simp)
  exact ⟨a, b, reached, refiled, n, c, ends, corrected, corrected.counted.trans count, t, ht,
    entry.trans id, into, text⟩

end Archive

end LocalizationMemory
