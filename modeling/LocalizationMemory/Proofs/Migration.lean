import LocalizationMemory.Archive.Maintenance
import LocalizationMemory.Connection
import LocalizationMemory.Proofs.Archive.Snapshot
import LocalizationMemory.Proofs.Reachability

/-!
# Archives of the older time

An archive of the older layout is made ready by giving its entries an empty file; nothing
else in it changes. A version can be stored in it from then on, but the rule of the older
time stays in force: a key occurs once in a version, whatever the file. So what is stored
of a list of files is part of what the tables of today would hold, and it is all of that
exactly if no key of the files is in two of them, and none is in an entry that stands
under the id of the new version already.

## Main definitions

* `Archive.addedContents` — the contents of the entries that came to an archive
* `Archive.KeysApart` — no key of some files is in two of them, or stored already

## Main results

* `Archive.firstLines_sublist_distinctLines` — of what the older rule lets in, today's
  tables would refuse nothing
* `Archive.length_firstLines_eq_iff` — when the older rule lets in as much
* `Action.snapshot_migrated_alike_iff` — when a version is stored as it would be today
* `Action.snapshot_migrated_drops_line` — it is not if a key is in two files
-/

namespace LocalizationMemory

namespace Archive

variable {a b : Archive} {access : Access} {files : List SourceFile}

/-- The contents of the entries that an archive has over those of an earlier one. -/
def addedContents (a b : Archive) : List (Option String × String × String) :=
  (b.entries.rows.drop a.entries.rows.length).map (·.content)

theorem addedContents_of_rows {versionId : RowId} {lines : List SourceLine} {new : List EntryRow}
    (news : a.NewEntries versionId lines new) (rows : b.entries.rows = a.entries.rows ++ new) :
    a.addedContents b = lines.map (·.content) := by
  rw [addedContents, rows, List.drop_left, news.contents]

/-- No key of the files is in two of them, and none is in an entry that stands under the id of
the version to come. -/
structure KeysApart (a : Archive) (files : List SourceFile) : Prop where
  oneFile : ∀ l ∈ sourceLines files, ∀ l' ∈ sourceLines files, l.key = l'.key → l.file = l'.file
  unused : ∀ e ∈ a.entries.rows, e.versionId = a.versions.nextId →
    ∀ l ∈ sourceLines files, e.key ≠ l.key

/-! ### The two rules -/

/-- Lines that the older rule tells apart are told apart by their keys. -/
theorem sameKey_extended (line l : SourceLine) : sameKey .extended line l = (l.key == line.key) :=
  Bool.and_true _

/-- What the older rule lets in is let in today, too. -/
theorem firstLines_sublist_distinctLines (lines : List SourceLine) :
    (firstLines .extended lines).Sublist (distinctLines lines) := by
  induction lines with
  | nil => exact .slnil
  | cons line r ih =>
    -- Who leaves out all lines of a key leaves out those of the key in one file first.
    have stricter : (firstLines .extended r).filter (!sameKey .extended line ·) =
        ((firstLines .extended r).filter (!sameKey .current line ·)).filter
          (!sameKey .extended line ·) := by
      rw [List.filter_filter]
      refine List.filter_congr fun l _ => ?_
      rw [sameKey_extended, sameKey_current]
      cases l.key == line.key <;> simp
    rw [← firstLines_current] at ih ⊢
    rw [firstLines_cons, firstLines_cons, stricter]
    exact (List.filter_sublist.trans (ih.filter _)).cons_cons line

/-- Of the lines that are left no two are of one key. -/
theorem pairwise_firstLines (layout : Layout) (lines : List SourceLine) :
    (firstLines layout lines).Pairwise fun l l' => sameKey layout l l' = false := by
  induction lines with
  | nil => exact .nil
  | cons line r ih =>
    rw [firstLines_cons]
    refine List.pairwise_cons.mpr ⟨fun l hl => ?_, ih.filter _⟩
    simpa using (List.mem_filter.mp hl).2

/-- The older rule leaves one line of every key. -/
theorem nodup_key_firstLines (lines : List SourceLine) :
    ((firstLines .extended lines).map (·.key)).Nodup := by
  refine List.pairwise_map.mpr ((pairwise_firstLines .extended lines).imp fun {l l'} apart => ?_)
  rw [sameKey_extended] at apart
  exact (ne_of_beq_false apart).symm

/-- For every line one of its key is left. -/
theorem exists_mem_firstLines (layout : Layout) {lines : List SourceLine} {line : SourceLine}
    (mem : line ∈ lines) : ∃ l ∈ firstLines layout lines, sameKey layout l line = true := by
  induction lines with
  | nil => cases mem
  | cons first r ih =>
    rw [firstLines_cons]
    by_cases same : sameKey layout first line = true
    · exact ⟨first, List.mem_cons_self, same⟩
    · obtain rfl | mem := List.mem_cons.mp mem
      · exact absurd (by simp [sameKey]) same
      · obtain ⟨l, hl, own⟩ := ih mem
        refine ⟨l, List.mem_cons_of_mem _ (List.mem_filter.mpr ⟨hl, ?_⟩), own⟩
        rw [sameKey_of_sameKey own] at same
        simpa using same

/-- Rules that agree on some lines leave the same of them. -/
theorem firstLines_congr {layout layout' : Layout} {lines : List SourceLine}
    (agree : ∀ l ∈ lines, ∀ l' ∈ lines, sameKey layout l l' = sameKey layout' l l') :
    firstLines layout lines = firstLines layout' lines := by
  induction lines with
  | nil => rfl
  | cons line r ih =>
    have rest := ih fun l hl l' hl' =>
      agree l (List.mem_cons_of_mem _ hl) l' (List.mem_cons_of_mem _ hl')
    rw [firstLines_cons, firstLines_cons, rest]
    congr 1
    apply List.filter_congr
    intro l hl
    have mem : l ∈ r := (firstLines_sublist layout' r).subset hl
    rw [agree line List.mem_cons_self l (List.mem_cons_of_mem _ mem)]

section OlderRule

variable {versionId : RowId} {lines : List SourceLine}

theorem olderLines_sublist :
    (firstLines .extended (lines.filter (isFreeUnder .extended a versionId))).Sublist
      (distinctLines lines) := by
  rw [firstLines_filter fun l l' same => isFreeUnder_of_sameKey same a versionId]
  exact List.filter_sublist.trans (firstLines_sublist_distinctLines lines)

/-- An entry of the version that has the key of a line is in its way. -/
theorem isFreeUnder_extended_iff {line : SourceLine} :
    isFreeUnder .extended a versionId line = true ↔
      ∀ e ∈ a.entries.rows, e.versionId = versionId → e.key ≠ line.key := by
  simp [isFreeUnder, inTheWay, Layout.keysPerVersion]

/-- The older rule lets in as much as that of today exactly if no key is in two files and none
is taken. -/
theorem length_olderLines_eq_iff :
    (firstLines .extended (lines.filter (isFreeUnder .extended a versionId))).length =
        (distinctLines lines).length ↔
      (∀ l ∈ lines, ∀ l' ∈ lines, l.key = l'.key → l.file = l'.file) ∧
        ∀ e ∈ a.entries.rows, e.versionId = versionId → ∀ l ∈ lines, e.key ≠ l.key := by
  constructor
  · intro length
    have all := olderLines_sublist.eq_of_length length
    -- A line has one of its file and key among those of today, and so among the older ones.
    have kept : ∀ l ∈ lines, ∃ d ∈ firstLines .extended
        (lines.filter (isFreeUnder .extended a versionId)), d.file = l.file ∧ d.key = l.key := by
      intro l hl
      rw [all, ← firstLines_current]
      obtain ⟨d, hd, same⟩ := exists_mem_firstLines .current hl
      rw [sameKey_current, Bool.and_eq_true, beq_iff_eq, beq_iff_eq] at same
      exact ⟨d, hd, same.1.symm, same.2.symm⟩
    constructor
    · intro l hl l' hl' key
      obtain ⟨d, hd, file, own⟩ := kept l hl
      obtain ⟨d', hd', file', own'⟩ := kept l' hl'
      have same : d = d' := List.inj_on_of_nodup_map (nodup_key_firstLines _) hd hd'
        (own.trans (key.trans own'.symm))
      rw [← file, ← file', same]
    · intro e he version l hl
      obtain ⟨d, hd, -, own⟩ := kept l hl
      have free := (List.mem_filter.mp ((firstLines_sublist _ _).subset hd)).2
      rw [← own]
      exact isFreeUnder_extended_iff.mp free e he version
  · rintro ⟨oneFile, unused⟩
    have free : lines.filter (isFreeUnder .extended a versionId) = lines :=
      List.filter_eq_self.mpr fun l hl =>
        isFreeUnder_extended_iff.mpr fun e he version => unused e he version l hl
    have agree : ∀ l ∈ lines, ∀ l' ∈ lines,
        sameKey .extended l l' = sameKey .current l l' := by
      intro l hl l' hl'
      rw [sameKey_extended, sameKey_current]
      by_cases key : l'.key = l.key
      · simp [key, oneFile l' hl' l hl key]
      · simp [key]
    rw [free, firstLines_congr agree, firstLines_current]

end OlderRule

end Archive

/-! ### Snapshots -/

namespace Action

open Archive

variable {a b c : Archive} {access : Access} {modId : RowId} {files : List SourceFile}

/-- Tables of the older time are made ready, and their rows stay: entries are given an empty
file. -/
theorem ends_prepare_old (old : a.layout = .old) (free : access.obstacle = none) :
    prepare.Ends access a () { a with
      layout := .extended
      entries := { a.entries with rows := a.entries.rows.map ({ · with file := some "" }) } } := by
  have permitted : access.permission = .ok () := by simp [Access.permission, free]
  simp [Ends, prepare, permitted, Archive.prepare, old]

/-- An archive of the older time is made ready and keeps its rows, with an empty file for its
entries. A version of a mod whose hash is new is stored in it from then on. It gets the entries,
and counts as many, that it would get in the tables of today exactly if no key is in two of its
files, or in an entry that stands under the id of the version already. -/
theorem snapshot_migrated_alike_iff {a c : Archive} {opening access access' : Access}
    {modId modId' : RowId} {files : List SourceFile} (old : a.layout = .old) (rules : a.rules = [])
    (ready : opening.obstacle = none) (free : access.CanWrite)
    (ofMod : ∃ m ∈ a.mods.rows, m.id = modId)
    (new : a.versionByHash? (snapshotHash files) = none) (consistent : c.Consistent)
    (current : c.layout = .current) (rules' : c.rules = []) (free' : access'.CanWrite)
    (ofMod' : ∃ m ∈ c.mods.rows, m.id = modId')
    (new' : c.versionByHash? (snapshotHash files) = none) :
    ∃ b, prepare.Ends opening a () b ∧
      b = { a with
        layout := .extended
        entries := { a.entries with rows := a.entries.rows.map ({ · with file := some "" }) } } ∧
      ∃ s d s' d', (snapshotChecked modId files).Ends access b s d ∧
        (snapshotChecked modId' files).Ends access' c s' d' ∧
        s.created = true ∧ s'.created = true ∧ b.entries.rows <+: d.entries.rows ∧
        s.entriesWritten = (b.addedContents d).length ∧
        s'.entriesWritten = (c.addedContents d').length ∧
        ((b.addedContents d).Perm (c.addedContents d') ↔ a.KeysApart files) ∧
        (s.entriesWritten = s'.entriesWritten ↔ a.KeysApart files) := by
  refine ⟨_, ends_prepare_old old ready, rfl, ?_⟩
  set b : Archive := { a with
    layout := .extended
    entries := { a.entries with rows := a.entries.rows.map ({ · with file := some "" }) } }
  have newb : b.versionByHash? (snapshotHash files) = none := new
  obtain ⟨s, d, ends, stored⟩ :=
    exists_ends_snapshotChecked (a := b) rules rfl free ofMod newb
  obtain ⟨s', d', ends', stored'⟩ :=
    exists_ends_snapshotChecked rules' (hasFilePaths_of_current current) free' ofMod' new'
  obtain ⟨created, -, -, -, ⟨rows, news, rows_d, count⟩, -⟩ :=
    exists_newEntries_addVersion_of_layout (rfl : b.layout = .extended) stored
  obtain ⟨created', -, -, -, ⟨rows', news', rows_d', count'⟩, -⟩ :=
    exists_newEntries_addVersion consistent stored'
  have contents := addedContents_of_rows news rows_d
  have contents' := addedContents_of_rows news' rows_d'
  have counted : s.entriesWritten = (b.addedContents d).length := by
    rw [count, contents, ← news.contents, List.length_map]
  have counted' : s'.entriesWritten = (c.addedContents d').length := by
    rw [count', contents', ← news'.contents, List.length_map]
  -- Giving entries a file changes neither their versions nor their keys.
  have apart : (b.addedContents d).length = (c.addedContents d').length ↔ a.KeysApart files := by
    rw [contents, contents', List.length_map, List.length_map, length_olderLines_eq_iff]
    have kept : (∀ e ∈ b.entries.rows, e.versionId = b.versions.nextId →
        ∀ l ∈ sourceLines files, e.key ≠ l.key) ↔
        ∀ e ∈ a.entries.rows, e.versionId = a.versions.nextId →
          ∀ l ∈ sourceLines files, e.key ≠ l.key := List.forall_mem_map
    rw [kept]
    exact ⟨fun h => ⟨h.1, h.2⟩, fun h => ⟨h.oneFile, h.unused⟩⟩
  refine ⟨s, d, s', d', ends, ends', created, created', ⟨rows, rows_d.symm⟩, counted, counted',
    ?_, ?_⟩
  · refine ⟨fun same => apart.mp same.length_eq, fun h => ?_⟩
    -- What the older rule lets in is part of what that of today does, so it is all of it.
    have length := apart.mpr h
    rw [contents, contents'] at length ⊢
    rw [(olderLines_sublist.map _).eq_of_length length]
  · rw [counted, counted']
    exact apart

/-- In an archive of the older time with a mod, two files with a key each are stored as they are
today. -/
theorem snapshot_migrated_alike_iff_of_two_files :
    ∃ b s d c s' d', prepare.Ends { now := 1 } (ofOldRows ["Alpha"] [] []) () b ∧
      (snapshotChecked 1 [⟨"a.yml", [⟨"k", none⟩], ["X"]⟩, ⟨"b.yml", [⟨"l", none⟩], ["Y"]⟩]).Ends
        { now := 2 } b s d ∧
      c.Reached (· ≤ ·) 1 ∧
      (snapshotChecked 1 [⟨"a.yml", [⟨"k", none⟩], ["X"]⟩, ⟨"b.yml", [⟨"l", none⟩], ["Y"]⟩]).Ends
        { now := 2 } c s' d' ∧
      (b.addedContents d).Perm (c.addedContents d') ∧ s.entriesWritten = s'.entriesWritten := by
  let s : Store := { settings := {} }
  let files : List SourceFile :=
    [⟨"a.yml", [⟨"k", none⟩], ["X"]⟩, ⟨"b.yml", [⟨"l", none⟩], ["Y"]⟩]
  obtain ⟨c, found, current, rules, ofMod, new⟩ :
      ∃ c ∈ (s.operateAll [.ensureMod "Alpha" none]).archive? 0, c.layout = .current ∧
        c.rules = [] ∧ (∃ m ∈ c.mods.rows, m.id = 1) ∧
        c.versionByHash? (snapshotHash files) = none := by decide +kernel
  have reached : c.Reached (· ≤ ·) 1 :=
    ⟨_, 0, s.reached_operateAll [.ensureMod "Alpha" none], found⟩
  have free : ({ now := 2 } : Access).CanWrite := ⟨by decide, rfl⟩
  have ofOld : ∃ m ∈ (ofOldRows ["Alpha"] [] []).mods.rows, m.id = 1 := by decide
  obtain ⟨b, made, -, w, d, w', d', ends, ends', -, -, -, -, -, contents, counts⟩ :=
    snapshot_migrated_alike_iff rfl rfl (rfl : ({ now := 1 } : Access).obstacle = none) free ofOld
      (rfl : (ofOldRows ["Alpha"] [] []).versionByHash? (snapshotHash files) = none)
      reached.isConsistent current rules free ofMod new
  have apart : (ofOldRows ["Alpha"] [] []).KeysApart files :=
    ⟨by decide +kernel, by decide +kernel⟩
  exact ⟨b, w, d, c, w', d', made, ends, reached, ends', contents.mpr apart, counts.mpr apart⟩

/-- Of a key that is in two files, an archive of the older time stores the first line alone, where
the tables of today store both. -/
theorem snapshot_migrated_drops_line :
    ∃ b s d c s' d', prepare.Ends { now := 1 } (ofOldRows ["Alpha"] [] []) () b ∧
      (snapshotChecked 1 [⟨"a.yml", [⟨"k", none⟩], ["X"]⟩, ⟨"b.yml", [⟨"k", none⟩], ["Y"]⟩]).Ends
        { now := 2 } b s d ∧
      c.Reached (· ≤ ·) 1 ∧
      (snapshotChecked 1 [⟨"a.yml", [⟨"k", none⟩], ["X"]⟩, ⟨"b.yml", [⟨"k", none⟩], ["Y"]⟩]).Ends
        { now := 2 } c s' d' ∧
      s.entriesWritten = 1 ∧ b.addedContents d = [(some "a.yml", "k", "X")] ∧
      s'.entriesWritten = 2 ∧
      c.addedContents d' = [(some "a.yml", "k", "X"), (some "b.yml", "k", "Y")] := by
  let s : Store := { settings := {} }
  let a := ofOldRows ["Alpha"] [] []
  let store := snapshotChecked 1
    [⟨"a.yml", [⟨"k", none⟩], ["X"]⟩, ⟨"b.yml", [⟨"k", none⟩], ["Y"]⟩]
  obtain ⟨succeeds, older⟩ : (store { now := 2 } a.prepare).result.isOk = true ∧
      ∀ w ∈ (store { now := 2 } a.prepare).result.toOption, w.entriesWritten = 1 ∧
        a.prepare.addedContents (store { now := 2 } a.prepare).archive =
          [(some "a.yml", "k", "X")] := by decide +kernel
  obtain ⟨c, found, succeeds', today⟩ : ∃ c ∈ (s.operateAll [.ensureMod "Alpha" none]).archive? 0,
      (store { now := 2 } c).result.isOk = true ∧
        ∀ w ∈ (store { now := 2 } c).result.toOption, w.entriesWritten = 2 ∧
          c.addedContents (store { now := 2 } c).archive =
            [(some "a.yml", "k", "X"), (some "b.yml", "k", "Y")] := by decide +kernel
  have reached : c.Reached (· ≤ ·) 1 :=
    ⟨_, 0, s.reached_operateAll [.ensureMod "Alpha" none], found⟩
  obtain ⟨w, ends⟩ := exists_ends_of_isOk succeeds
  obtain ⟨w', ends'⟩ := exists_ends_of_isOk succeeds'
  obtain ⟨count, contents⟩ := older w (by rw [ends.1]; rfl)
  obtain ⟨count', contents'⟩ := today w' (by rw [ends'.1]; rfl)
  exact ⟨a.prepare, w, _, c, w', _, ⟨rfl, rfl⟩, ends, reached, ends', count, contents, count',
    contents'⟩

end Action

end LocalizationMemory
