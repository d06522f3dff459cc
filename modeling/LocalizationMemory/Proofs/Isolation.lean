import LocalizationMemory.Proofs.Alike
import LocalizationMemory.Proofs.Confinement

/-!
# Mods apart from one another

What is done for one mod is seen from another by reading alone: its versions, a file read
back, and a comparison of source files with it. All three come to the same before and after
but for renderings, and these can differ only where the other mod has a version with the
fingerprint of the files that the work was done for, in the language of that work, at the
entries that a key of the files means. So mods are apart except where they hold the same
texts, and then they share what is rendered of them.

## Main definitions

* `Action.AnswersAlike` — reading comes to related answers in two archives
* `Archive.ReadsAlike` — so does all that is read of a mod
* `Archive.WorkedOn` — what a call for a mod leaves

## Main results

* `Archive.Confined.readsAlike` — what is confined to one mod is not seen from another
* `Archive.Reached.isolated` — mods are apart but for texts that they share
* `Archive.Reached.shared_rendering_seen` — these are seen
-/

namespace LocalizationMemory

variable {a b : Archive} {modName other language : String} {m : ModRow}
  {touched : String → EntryRow → Prop} {files keyed : List SourceFile}

/-! ### Answers of two archives -/

/-- An action that reads comes to related results in two archives, and fails alike. -/
def Action.AnswersAlike {α : Type} (act : Action α) (R : α → α → Prop) (a b : Archive) : Prop :=
  ∀ access, (∀ x, act.Ends access a x a → ∃ y, act.Ends access b y b ∧ R x y) ∧
    ∀ failure, act.Fails access a failure a → act.Fails access b failure b

namespace Action.AnswersAlike

variable {α : Type} {act : Action α} {R S : α → α → Prop}

theorem refl (related : ∀ x, R x x) : act.AnswersAlike R a a :=
  fun _ => ⟨fun x ends => ⟨x, ends, related x⟩, fun _ fails => fails⟩

theorem mono (alike : act.AnswersAlike R a b) (weaker : ∀ x y, R x y → S x y) :
    act.AnswersAlike S a b := by
  intro access
  obtain ⟨ends, fails⟩ := alike access
  refine ⟨fun x hx => ?_, fails⟩
  obtain ⟨y, hy, related⟩ := ends x hx
  exact ⟨y, hy, weaker x y related⟩

/-- An action that always succeeds answers alike if its results are related. -/
theorem of_ends {x y : α} (before : ∀ access, act.Ends access a x a)
    (after : ∀ access, act.Ends access b y b) (related : R x y) : act.AnswersAlike R a b := by
  intro access
  refine ⟨fun x' ends => ?_, fun failure fails => absurd fails (before access).not_fails⟩
  obtain ⟨rfl, -⟩ := (before access).unique ends
  exact ⟨y, after access, related⟩

end Action.AnswersAlike

/-- Reading the versions of a mod succeeds where there are the tables of today. -/
theorem Action.ends_versionSummariesNamed (current : a.layout = .current) (access : Access) :
    (versionSummariesNamed modName).Ends access a
      ((a.mod? modName).elim [] fun m => a.versionSummaries m.id) a := by
  have found : (modNamed modName).Ends access a (a.mod? modName) a :=
    ends_read_iff.mpr ⟨Archive.hasTables_of_current current, rfl, rfl⟩
  refine ends_bind_iff.mpr ⟨_, a, found, ?_⟩
  cases a.mod? modName with
  | none => exact ends_pure_iff.mpr ⟨rfl, rfl⟩
  | some m => exact ends_readFiles_iff.mpr ⟨Archive.hasFilePaths_of_current current, rfl, rfl⟩

namespace Archive

/-- What is read of a mod is the same in two archives, but for renderings of keys of files that
are excepted for a language. -/
structure ReadsAlike (a : Archive) (modName : String) (excepted : String → String → String → Prop)
    (b : Archive) : Prop where
  versions : (Action.versionSummariesNamed modName).AnswersAlike (fun s s' => s' = s) a b
  entries : ∀ path language, (Action.archivedEntries modName path language).AnswersAlike
    (List.Forall₂ (ArchivedEntry.AlikeBut (excepted language (baseName path)))) a b
  plan : ∀ files language, (Action.plan modName files language).AnswersAlike
    (Plan.AlikeBut (excepted language)) a b

/-- A touched entry is of a key of a file of the mod of a name. -/
def Reaches (a : Archive) (modName : String) (touched : String → EntryRow → Prop)
    (language file key : String) : Prop :=
  ∃ m e, a.mod? modName = some m ∧ a.InFile m.id file e ∧ e.key = key ∧ touched language e

namespace Confined

variable (confined : a.Confined modName touched b) (ha : a.Consistent) (differs : other ≠ modName)

include confined ha differs

theorem archivedEntries (path language : String) :
    List.Forall₂ (ArchivedEntry.AlikeBut (a.Reaches other touched language (baseName path)))
      (a.archivedEntries other path language) (b.archivedEntries other path language) := by
  have latest := confined.latestVersionNamed? differs
  cases hv : a.latestVersionNamed? other with
  | none =>
    rw [Archive.archivedEntries, Archive.archivedEntries, latest, hv]
    exact .nil
  | some v =>
    obtain ⟨m, hm, id, newest⟩ := (latestVersionNamed?_eq_some_iff ha).mp hv
    have same : b.entriesOfFile v.id (baseName path) = a.entriesOfFile v.id (baseName path) := by
      rw [entriesOfFile, confined.grows.snapshots v newest.mem, entriesOfFile]
    rw [archivedEntries_of_latest hv, archivedEntries_of_latest (latest.trans hv),
      entriesWithHistory, entriesWithHistory, same, List.forall₂_map_left_iff,
      List.forall₂_map_right_iff]
    refine List.forall₂_same.mpr fun row _ => ⟨rfl, rfl, fun kept => ?_⟩
    rw [← id]
    exact confined.lastRendering? differs ha hm fun e he hkey reached =>
      kept ⟨m, e, hm, he, hkey, reached⟩

theorem planOf (files : List SourceFile) (language : String) :
    (a.planOf other language files).AlikeBut (a.Reaches other touched language)
      (b.planOf other language files) where
  modName := rfl
  language := rfl
  files := by
    rw [Archive.planOf, Archive.planOf, List.forall₂_map_left_iff, List.forall₂_map_right_iff]
    exact List.forall₂_same.mpr fun f _ => classify_alikeBut f
      (confined.archivedEntries ha differs f.filename language)

/-- What is confined to one mod is not seen from another, but for renderings that are touched. -/
theorem readsAlike (current : a.layout = .current) :
    a.ReadsAlike other (a.Reaches other touched) b := by
  have hb := confined.consistent
  have current' := confined.grows.layout current
  refine ⟨?_, fun path language => ?_, fun files language => ?_⟩
  · refine .of_ends (Action.ends_versionSummariesNamed current)
      (Action.ends_versionSummariesNamed current') ?_
    obtain ⟨old, new⟩ | ⟨m, m', old, new, id⟩ := confined.mod?_cases differs
    · rw [old, new]
      rfl
    · rw [old, new, Option.elim_some, Option.elim_some, id,
        confined.versionSummaries differs old]
  · exact .of_ends (fun _ => (Action.ends_archivedEntries_iff ha).mpr ⟨current, rfl, rfl⟩)
      (fun _ => (Action.ends_archivedEntries_iff hb).mpr ⟨current', rfl, rfl⟩)
      (confined.archivedEntries ha differs path language)
  · exact .of_ends (fun _ => (Action.ends_plan_iff ha).mpr ⟨fun _ => current, rfl, rfl⟩)
      (fun _ => (Action.ends_plan_iff hb).mpr ⟨fun _ => current', rfl, rfl⟩)
      (confined.planOf ha differs files language)

end Confined

theorem ReadsAlike.refl (excepted : String → String → String → Prop) :
    a.ReadsAlike modName excepted a where
  versions := .refl fun _ => rfl
  entries _ _ := .refl fun _ => List.forall₂_same.mpr fun _ _ => ⟨rfl, rfl, fun _ => rfl⟩
  plan _ _ := .refl fun _ => ⟨rfl, rfl, List.forall₂_same.mpr fun _ _ =>
    ⟨rfl, List.forall₂_same.mpr fun _ _ => ⟨rfl, fun _ => rfl⟩⟩⟩

/-! ### Calls for a mod -/

/-- What a call for a mod leaves, whether it succeeds or fails: an update, or a snapshot, with
or without results archived for the version that it comes to. The version is that of `files`,
and renderings are given for keys of `keyed`. -/
inductive WorkedOn (a : Archive) (modName language : String) :
    List SourceFile → List SourceFile → Archive → Prop
  | update (w : WriteAccesses) (remoteId : Option String) (files : List SourceFile)
      (translator : Translator) (access : Access) :
      WorkedOn a modName language (files.map (·.normalized)) (files.map (·.normalized))
        (Action.updateBy w modName remoteId files language translator access a).archive
  | snapshot {m : ModRow} (hm : a.mod? modName = some m) (files : List SourceFile)
      (access : Access) :
      WorkedOn a modName language files [] (Action.snapshotChecked m.id files access a).archive
  | results {m : ModRow} (hm : a.mod? modName = some m) {files : List SourceFile}
      {access : Access} {s : Snapshot} {b : Archive}
      (first : (Action.snapshotChecked m.id files).Ends access a s b) (keyed : List SourceFile)
      (results : FileResults) (access' : Access) :
      WorkedOn a modName language files keyed
        (Action.archiveResults s.versionId results keyed language access' b).archive

theorem WorkedOn.confined (worked : a.WorkedOn modName language files keyed b)
    (ha : a.Consistent) :
    (b = a ∨ a.layout = .current) ∧ a.Confined modName (a.Shares files keyed language) b := by
  cases worked with
  | update w remoteId files translator access =>
    refine ⟨?_, confined_updateBy ha w remoteId translator access⟩
    apply Action.archive_of_cases (P := fun b => b = a ∨ a.layout = .current)
    · intro failure b fails
      exact (Action.fails_updateBy_cases ha fails).imp_right And.left
    · intro outcome b ends
      rw [Action.updateBy] at ends
      split at ends
      · exact absurd ends Action.not_ends_failWith
      · next nonempty =>
        obtain ⟨p, c, planned, -⟩ := Action.ends_bind_iff.mp ends
        exact .inr (((Action.ends_plan_iff ha).mp planned).1 (by simpa using nonempty))
  | snapshot hm files access =>
    refine ⟨?_, confined_snapshotChecked ha hm access⟩
    apply Action.archive_of_cases (P := fun b => b = a ∨ a.layout = .current)
    · exact fun failure b fails => .inl (Action.archive_of_fails_snapshotChecked fails)
    · exact fun s b ends =>
        .inr (ha.layout_eq_current (Action.ends_snapshotChecked_iff.mp ends).1)
  | results hm first keyed results access' =>
    exact ⟨.inr (ha.layout_eq_current (Action.ends_snapshotChecked_iff.mp first).1),
      confined_archiveAligned_of_snapshot ha hm first _ access'⟩

/-- Mods are apart but for texts that they share. After whatever was done for one mod, be it an
update or a snapshot with or without results archived for its version, and be it with success or
not, another mod has the versions that it had, and its files are read back and compared as before
but for renderings. Compared files are requested and counted as before. And nothing at all differs
in a language other than that of the work, nor if the other mod has no version with the
fingerprint of the files. -/
theorem Reached.isolated {tick : Millis → Millis → Prop} {now : Millis} (h : a.Reached tick now)
    (differs : other ≠ modName) (worked : a.WorkedOn modName language files keyed b) :
    a.ReadsAlike other (a.Reaches other (a.Shares files keyed language)) b ∧
    (∀ sources l, (Action.plan other sources l).AnswersAlike (fun p p' =>
      p'.bare = p.bare ∧ p'.summary = p.summary ∧ p'.requests = p.requests) a b) ∧
    ∀ l, (l = language → ∀ m v, a.mod? other = some m → v ∈ a.versions.rows → v.modId = m.id →
        v.hash ≠ snapshotHash files) →
      (∀ path, (Action.archivedEntries other path l).AnswersAlike (fun e e' => e' = e) a b) ∧
      ∀ sources, (Action.plan other sources l).AnswersAlike (fun p p' => p' = p) a b := by
  have ha := h.isConsistent
  have alike : a.ReadsAlike other (a.Reaches other (a.Shares files keyed language)) b := by
    obtain ⟨rfl | current, confined⟩ := worked.confined ha
    · exact .refl _
    · exact confined.readsAlike ha differs current
  refine ⟨alike, fun sources l => (alike.plan sources l).mono fun p p' same => ?_,
    fun l apart => ?_⟩
  · have bare := same.bare_eq
    exact ⟨bare, by rw [← p'.summary_bare, bare, p.summary_bare],
      by rw [← p'.requests_bare, bare, p.requests_bare]⟩
  · -- An entry that is shared would be of a version that the other mod has not.
    have none (file key : String) : ¬ a.Reaches other (a.Shares files keyed language) l file key := by
      rintro ⟨m, e, hm, he, -, into, v, hv, id, hash, -⟩
      obtain ⟨w, hw, id', ofMod⟩ := he.version
      obtain rfl := ha.versions.unique.eq_of_key_eq hw hv (id'.trans id.symm)
      exact apart into m w hm hv ofMod hash
    exact ⟨fun path => (alike.entries path l).mono fun _ _ same =>
        eq_of_forall₂ (fun _ _ related => related.eq_of_none (none _)) same,
      fun sources => (alike.plan sources l).mono fun _ _ same => same.eq_of_none none⟩

/-- A mod is updated with the text of another, and gives the one rendering that both have another
text. In another language the other mod is read as before, and what is compared with it requests
nothing, as before. -/
theorem Reached.isolated_of_shared :
    ∃ a b : Archive, a.Reached (· ≤ ·) 1 ∧ "Alpha" ≠ "Beta" ∧
      a.WorkedOn "Beta" "ko" [⟨"a.yml", [⟨"k", none⟩], ["X"]⟩] [⟨"a.yml", [⟨"k", none⟩], ["X"]⟩] b ∧
      b.renderings.rows.map (·.text) = ["KO:X"] ∧ a.renderings.rows.map (·.text) = ["ko:X"] ∧
      (Action.archivedEntries "Alpha" "a.yml" "ja").AnswersAlike (fun e e' => e' = e) a b ∧
      (Action.plan "Alpha" [⟨"a.yml", [⟨"k", none⟩], ["X"]⟩] "ko").AnswersAlike
        (fun p p' => p'.requests = p.requests) a b := by
  let s : Store := { settings := {} }
  let files : List SourceFile := [⟨"a.yml", [⟨"k", none⟩], ["X"]⟩]
  let ops : List Operation := [.update "Alpha" none files "ko" (.rendering ("ko:" ++ ·))]
  let call := Action.updateBy ({ now := 2 } : Access).forAll "Beta" none files "ko"
    (.rendering ("KO:" ++ ·))
  obtain ⟨a, found, old, new⟩ : ∃ a ∈ (s.operateAll ops).archive? 0,
      a.renderings.rows.map (·.text) = ["ko:X"] ∧
      (call { now := 2 } a).archive.renderings.rows.map (·.text) = ["KO:X"] := by
    decide +kernel
  have reached : a.Reached (· ≤ ·) 1 := ⟨_, 0, s.reached_operateAll ops, found⟩
  have worked : a.WorkedOn "Beta" "ko" files files (call { now := 2 } a).archive :=
    .update ({ now := 2 } : Access).forAll none files (.rendering ("KO:" ++ ·)) { now := 2 }
  have differs : "Alpha" ≠ "Beta" := by decide
  have other : "ja" ≠ "ko" := by decide
  obtain ⟨-, planned, apart⟩ := reached.isolated differs worked
  exact ⟨a, _, reached, differs, worked, new, old,
    (apart "ja" fun same => absurd same other).1 "a.yml",
    (planned files "ko").mono fun _ _ same => same.2.2⟩

/-- Texts that are shared are seen. A mod is updated with the text of another under the key that it
has there, and what is read back of the other mod changes: it is the rendering that was just made
for the first. -/
theorem Reached.shared_rendering_seen :
    ∃ (a b : Archive) (outcome : UpdateOutcome), a.Reached (· ≤ ·) 1 ∧ "Alpha" ≠ "Beta" ∧
      (Action.update "Beta" none [⟨"a.yml", [⟨"k", none⟩], ["X"]⟩] "ko"
        (.rendering ("KO:" ++ ·))).Ends { now := 2 } a outcome b ∧
      (Action.archivedEntries "Alpha" "a.yml" "ko").Ends { now := 2 } a
        [⟨"k", "X", some "ko:X"⟩] a ∧
      (Action.archivedEntries "Alpha" "a.yml" "ko").Ends { now := 2 } b
        [⟨"k", "X", some "KO:X"⟩] b := by
  let s : Store := { settings := {} }
  let files : List SourceFile := [⟨"a.yml", [⟨"k", none⟩], ["X"]⟩]
  let ops : List Operation := [.update "Alpha" none files "ko" (.rendering ("ko:" ++ ·))]
  let call := Action.update "Beta" none files "ko" (.rendering ("KO:" ++ ·)) { now := 2 }
  let look := Action.archivedEntries "Alpha" "a.yml" "ko" { now := 2 }
  obtain ⟨a, found, ends, old, new⟩ : ∃ a ∈ (s.operateAll ops).archive? 0,
      (call a).result.isOk = true ∧ (look a).result = .ok [⟨"k", "X", some "ko:X"⟩] ∧
      (look (call a).archive).result = .ok [⟨"k", "X", some "KO:X"⟩] := by
    decide +kernel
  obtain ⟨outcome, ends⟩ := Action.exists_ends_of_isOk ends
  have reads := Action.reads_archivedEntries "Alpha" "a.yml" "ko"
  exact ⟨a, _, outcome, ⟨_, 0, s.reached_operateAll ops, found⟩, by decide, ends,
    ⟨old, reads _ _⟩, ⟨new, reads _ _⟩⟩

end Archive

end LocalizationMemory
