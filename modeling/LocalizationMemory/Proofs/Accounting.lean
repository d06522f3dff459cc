import LocalizationMemory.Proofs.Archive.Archiving
import LocalizationMemory.Proofs.Reachability

/-!
# Results are accounted for

Results give texts for the keys of files. Each of these texts is either stored with the
entry that its key means, or its key is listed as unresolved and warned of; files that are
not there are listed by name. Nothing changes but the renderings of the entries that were
meant, and of two texts for one entry the later one stays.

## Main definitions

* `givenTexts` — the texts that results give for the keys of files
* `Archive.boundTexts`, `Archive.unresolvedKeys` — the texts whose keys mean an entry, and
  the keys that mean none
* `ArchiveReport.Accounts` — the report accounts for all that results give
* `Archive.ChangedBy` — the archive was changed by a batch and nothing else

## Main results

* `Archive.length_boundTexts_add` — no text is lost between the two
* `Archive.bindResults_eq` — what is bound and what is not
* `Action.warnings_bindResults` — each key that means no entry is warned of
* `Archive.archiveResults_accounted` — archiving stores or lists every text
-/

namespace LocalizationMemory

/-- A text that results give for a key of a file, which is written as in the file. -/
structure GivenText where
  filename : String
  rawKey : String
  text : String
  deriving DecidableEq, Repr

/-- The texts that the results for files give for the keys of the first file of each name, as far
as there are keys and texts. -/
def givenTexts (files : List SourceFile) (results : List (String × List String)) : List GivenText :=
  results.flatMap fun p =>
    match files.find? (·.filename == p.1) with
    | none => []
    | some f => (f.keys.zip p.2).map fun q => ⟨p.1, q.1.keyPart, q.2⟩

theorem givenTexts_cons (files : List SourceFile) (p : String × List String)
    (r : List (String × List String)) :
    givenTexts files (p :: r) = givenTexts files [p] ++ givenTexts files r := by
  simp [givenTexts]

/-- There are as many texts as there are keys with a text in the files that are there. -/
theorem length_givenTexts (files : List SourceFile) (results : List (String × List String)) :
    (givenTexts files results).length =
      (results.filterMap fun p => (files.find? (·.filename == p.1)).map fun f =>
        min f.keys.length p.2.length).sum := by
  induction results with
  | nil => rfl
  | cons p r ih =>
    rw [givenTexts_cons, List.length_append, ih, List.filterMap_cons]
    cases found : files.find? (·.filename == p.1) <;> simp [givenTexts, found]

namespace Archive

variable {a : Archive} {versionId : RowId} {files : List SourceFile}

/-- The texts whose keys mean an entry, each with its entry. -/
def boundTexts (a : Archive) (versionId : RowId) (given : List GivenText) : List EntryRendering :=
  given.filterMap fun g =>
    (a.resolve? versionId g.filename g.rawKey).map fun r => (r.entryId, g.text)

/-- The keys that mean no entry, in normal form. -/
def unresolvedKeys (a : Archive) (versionId : RowId) (given : List GivenText) :
    List UnresolvedKey :=
  (given.filter fun g => (a.resolve? versionId g.filename g.rawKey).isNone).map fun g =>
    ⟨g.filename, Key.normalize g.rawKey⟩

theorem length_boundTexts_add (given : List GivenText) :
    (a.boundTexts versionId given).length + (a.unresolvedKeys versionId given).length =
      given.length := by
  induction given with
  | nil => rfl
  | cons g r ih =>
    rw [List.length_cons, ← ih]
    cases found : a.resolve? versionId g.filename g.rawKey <;>
      simp [boundTexts, unresolvedKeys, found] <;> omega

@[simp] theorem boundTexts_append (given others : List GivenText) :
    a.boundTexts versionId (given ++ others) =
      a.boundTexts versionId given ++ a.boundTexts versionId others :=
  List.filterMap_append

@[simp] theorem unresolvedKeys_append (given others : List GivenText) :
    a.unresolvedKeys versionId (given ++ others) =
      a.unresolvedKeys versionId given ++ a.unresolvedKeys versionId others := by
  simp [unresolvedKeys]

/-! ### What is bound and what is not -/

theorem binding_append_eq (b c : Binding) : b ++ c =
    ⟨b.rows ++ c.rows, b.unresolved ++ c.unresolved, b.unknownFiles ++ c.unknownFiles⟩ := rfl

/-- What the texts for the keys of one file are bound to. -/
theorem bindKeys_eq (filename : String) (pairs : List (KeyInfo × String)) :
    a.bindKeys versionId filename (pairs.map (Prod.map id some)) =
      let given := pairs.map fun q => (⟨filename, q.1.keyPart, q.2⟩ : GivenText)
      { rows := a.boundTexts versionId given
        unresolved := a.unresolvedKeys versionId given } := by
  induction pairs with
  | nil => rfl
  | cons q r ih =>
    rw [List.map_cons]
    change a.bindKey versionId filename q.1.keyPart q.2 ++ _ = _
    rw [ih]
    cases found : a.resolve? versionId filename q.1.keyPart <;>
      simp [bindKey, found, boundTexts, unresolvedKeys, binding_append_eq]

/-- What the results for one file are bound to. -/
theorem bindFile_eq (p : String × List String) :
    a.bindFile versionId files p.1 (p.2.map some) =
      { rows := a.boundTexts versionId (givenTexts files [p])
        unresolved := a.unresolvedKeys versionId (givenTexts files [p])
        unknownFiles := if p.2 ≠ [] ∧ files.find? (·.filename == p.1) = none then [p.1] else [] } := by
  unfold bindFile
  cases texts : p.2 with
  | nil =>
    cases found : files.find? (·.filename == p.1) <;>
      simp [givenTexts, found, texts, boundTexts, unresolvedKeys]
  | cons text r =>
    cases found : files.find? (·.filename == p.1) with
    | none => simp [givenTexts, found, boundTexts, unresolvedKeys]
    | some f =>
      have some_texts : ¬ ((text :: r).map some).isEmpty = true := by simp
      simp only [if_neg some_texts, List.zip_map_right, bindKeys_eq, givenTexts,
        List.flatMap_singleton, found, texts, reduceCtorEq, and_false, if_false]

/-- What results without gaps are bound to. -/
theorem bindResults_eq (results : List (String × List String)) :
    a.bindResults versionId files (results.map fun p => (p.1, p.2.map some)) =
      { rows := a.boundTexts versionId (givenTexts files results)
        unresolved := a.unresolvedKeys versionId (givenTexts files results)
        unknownFiles := (results.filter fun p =>
          decide (p.2 ≠ [] ∧ files.find? (·.filename == p.1) = none)).map (·.1) } := by
  induction results with
  | nil => rfl
  | cons p r ih =>
    rw [List.map_cons, bindResults, ih, bindFile_eq, givenTexts_cons files p r, boundTexts_append,
      unresolvedKeys_append, List.filter_cons]
    by_cases unknown : p.2 ≠ [] ∧ files.find? (·.filename == p.1) = none
    · simp only [binding_append_eq, if_pos unknown, decide_eq_true unknown, if_true, List.map_cons,
        List.singleton_append]
    · simp only [binding_append_eq, if_neg unknown, decide_eq_false unknown, Bool.false_eq_true,
        if_false, List.nil_append]

end Archive

/-! ### What is reported -/

namespace Event

/-- Of the events the warnings that a key was not found. -/
def keyWarnings (events : List Event) : List Event :=
  events.filter (·.message == "source entry not found for key")

@[simp] theorem keyWarnings_append (events others : List Event) :
    keyWarnings (events ++ others) = keyWarnings events ++ keyWarnings others :=
  List.filter_append events others

end Event

/-- The warning that a key was not found in a version. -/
def UnresolvedKey.warning (versionId : RowId) (u : UnresolvedKey) : Event :=
  .keyNotFound versionId u.filename u.key

namespace Action

variable {α β : Type} {access : Access} {a b : Archive} {versionId : RowId} {filename : String}
  {files : List SourceFile}

/-- What a chain of actions reports is reported by one after the other. -/
theorem events_bind_of_ends {first : Action α} {second : α → Action β} {x : α}
    (ends : first.Ends access a x b) :
    ((first >>= second) access a).events =
      (first access a).events ++ (second x access b).events := by
  rcases ran : first access a with ⟨result, c, events, trace⟩
  obtain ⟨rfl, rfl⟩ : result = .ok x ∧ c = b := by simpa [Ends, ran] using ends
  rw [run_bind_of_ok ran]

/-- A batch is stored without a word. -/
theorem events_putRenderings (language : String) (rows : List EntryRendering) (access : Access)
    (a : Archive) : (putRenderings language rows access a).events = [] := by
  unfold putRenderings
  split
  · rfl
  · unfold write
    split
    · rfl
    · split <;> rfl

section Binding

variable (paths : a.layout.hasFilePaths = true)

include paths

theorem warnings_bindKey (rawKey text : String) :
    Event.keyWarnings (bindKey versionId filename rawKey text access a).events =
      (a.bindKey versionId filename rawKey text).unresolved.map (·.warning versionId) := by
  rw [bindKey, events_bind_of_ends ((ends_resolve_iff paths).mpr ⟨rfl, rfl⟩),
    run_resolve paths, Archive.bindKey]
  cases found : a.resolve? versionId filename rawKey with
  | none => rfl
  | some r =>
    -- That a key was found in another way is another event.
    simp only [resolutionEvents, run_pure, List.append_nil, List.map_nil]
    split <;> rfl

theorem warnings_bindKeys (pairs : List (KeyInfo × Option String)) :
    Event.keyWarnings (bindKeys versionId filename pairs access a).events =
      (a.bindKeys versionId filename pairs).unresolved.map (·.warning versionId) := by
  induction pairs with
  | nil => rfl
  | cons p r ih =>
    obtain ⟨info, rendering⟩ := p
    cases rendering with
    | none => exact ih
    | some text =>
      rw [bindKeys, events_bind_of_ends ((ends_bindKey_iff paths).mpr ⟨rfl, rfl⟩),
        events_bind_of_ends ((ends_bindKeys_iff paths).mpr ⟨rfl, rfl⟩), Event.keyWarnings_append,
        run_pure, List.append_nil, Archive.bindKeys, Archive.binding_append_eq, List.map_append]
      exact congrArg₂ (· ++ ·) (warnings_bindKey paths _ _) ih

theorem warnings_bindFile (renderings : List (Option String)) :
    Event.keyWarnings (bindFile versionId files filename renderings access a).events =
      (a.bindFile versionId files filename renderings).unresolved.map (·.warning versionId) := by
  unfold bindFile Archive.bindFile
  split
  · rfl
  · cases found : files.find? (·.filename == filename) with
    | none => rfl
    | some file =>
      dsimp only
      rw [← warnings_bindKeys paths]
      split
      · -- That there are more or fewer texts than keys is another warning.
        have reported : (report (.countDiffers filename file.keys.length renderings.length)).Ends
            access a () a := ends_report_iff.mpr rfl
        rw [events_bind_of_ends reported]
        rfl
      · rfl

/-- Binding results warns of each key that means no entry, in order. -/
theorem warnings_bindResults (results : List (String × List (Option String))) :
    Event.keyWarnings (bindResults versionId files results access a).events =
      (a.bindResults versionId files results).unresolved.map (·.warning versionId) := by
  induction results with
  | nil => rfl
  | cons p r ih =>
    obtain ⟨filename, renderings⟩ := p
    rw [bindResults, events_bind_of_ends ((ends_bindFile_iff paths).mpr ⟨rfl, rfl⟩),
      events_bind_of_ends ((ends_bindResults_iff paths).mpr ⟨rfl, rfl⟩), Event.keyWarnings_append,
      run_pure, List.append_nil, Archive.bindResults, Archive.binding_append_eq, List.map_append]
    exact congrArg₂ (· ++ ·) (warnings_bindFile paths _) ih

/-- Storing what was bound adds no such warning. -/
theorem warnings_archiveAligned {results : AlignedResults} {language : String}
    {report : ArchiveReport}
    (ends : (archiveAligned versionId results files language).Ends access a report b) :
    Event.keyWarnings (archiveAligned versionId results files language access a).events =
      report.unresolved.map (·.warning versionId) := by
  obtain ⟨put, unresolved, -⟩ := (ends_archiveAligned_iff paths).mp ends
  rw [archiveAligned, events_bind_of_ends ((ends_bindResults_iff paths).mpr ⟨rfl, rfl⟩),
    events_bind_of_ends put, events_putRenderings, List.nil_append, Event.keyWarnings_append,
    warnings_bindResults paths, ← unresolved]
  -- What is said after the write is how much was left out and how much was stored.
  refine (congrArg _ ?_).trans (List.append_nil _)
  dsimp only
  split <;> rfl

end Binding

end Action

/-! ### The account -/

/-- The report accounts for all that results give: by their names the files that are not there,
by their keys the texts that mean no entry, and by their number the texts that are stored. -/
structure ArchiveReport.Accounts (report : ArchiveReport) (a : Archive) (versionId : RowId)
    (results : FileResults) (files : List SourceFile) : Prop where
  ascending : report.unknownFiles.Pairwise (· < ·)
  unknown : ∀ name, name ∈ report.unknownFiles ↔
    (∃ texts, results.get? name = some texts ∧ texts ≠ []) ∧ ∀ f ∈ files, f.filename ≠ name
  archived : report.archived = (a.boundTexts versionId (givenTexts files results.entries)).length
  unresolved : report.unresolved = a.unresolvedKeys versionId (givenTexts files results.entries)
  total : report.archived + report.unresolved.length =
    (results.entries.filterMap fun p => (files.find? (·.filename == p.1)).map fun f =>
      min f.keys.length p.2.length).sum

/-- The archive was changed by a batch and nothing else: every rendering has the text that its
entry was given last, and an entry that had none has one now. -/
structure Archive.ChangedBy (a : Archive) (language : String) (now : Millis)
    (rows : List EntryRendering) (b : Archive) : Prop where
  frame : b = { a with renderings := b.renderings }
  lastId : b.renderings.lastId = a.renderings.lastId + rows.length
  rows : ∃ new, a.NewRenderings language now rows new ∧
    b.renderings.rows = a.renderings.rows.map (·.after language now rows) ++ new

section Account

variable {access : Access} {a b : Archive} {versionId : RowId} {results : FileResults}
  {files : List SourceFile} {language : String} {report : ArchiveReport}

/-- What results without gaps are bound to. -/
theorem Archive.bindResults_map_some :
    a.bindResults versionId files (results.map (·.map some)).entries =
      { rows := a.boundTexts versionId (givenTexts files results.entries)
        unresolved := a.unresolvedKeys versionId (givenTexts files results.entries)
        unknownFiles := (results.entries.filter fun p =>
          decide (p.2 ≠ [] ∧ files.find? (·.filename == p.1) = none)).map (·.1) } :=
  bindResults_eq results.entries

variable (paths : a.layout.hasFilePaths = true)
  (ends : (Action.archiveResults versionId results files language).Ends access a report b)

include paths ends

theorem Action.changedBy_of_archiveResults :
    a.ChangedBy language access.now (a.boundTexts versionId (givenTexts files results.entries))
      b := by
  obtain ⟨put, -, -⟩ := (ends_archiveAligned_iff paths).mp ends
  rw [Archive.bindResults_map_some] at put
  obtain ⟨hb, -, -⟩ := ends_putRenderings_iff.mp put
  exact ⟨Archive.putRenderings_frame hb, Archive.lastId_putRenderings hb,
    Archive.rows_putRenderings hb⟩

theorem Action.accounts_of_archiveResults : report.Accounts a versionId results files := by
  obtain ⟨put, unresolved, unknown⟩ := (ends_archiveAligned_iff paths).mp ends
  rw [Archive.bindResults_map_some] at put unresolved unknown
  obtain ⟨-, archived, -⟩ := ends_putRenderings_iff.mp put
  refine ⟨?_, fun name => ?_, archived, unresolved, ?_⟩
  · rw [unknown, List.pairwise_map]
    exact results.ascending.filter _
  · have absent : files.find? (·.filename == name) = none ↔ ∀ f ∈ files, f.filename ≠ name := by
      simp [List.find?_eq_none]
    simp only [unknown, List.mem_map, List.mem_filter, decide_eq_true_eq, Dict.get?_eq_some_iff,
      ← absent]
    constructor
    · rintro ⟨⟨name, texts⟩, ⟨mem, nonempty, none⟩, rfl⟩
      exact ⟨⟨texts, mem, nonempty⟩, none⟩
    · rintro ⟨⟨texts, mem, nonempty⟩, none⟩
      exact ⟨(name, texts), ⟨mem, nonempty, none⟩, rfl⟩
  · rw [archived, unresolved, Archive.length_boundTexts_add, length_givenTexts]

end Account

/-- Unless the write is hindered or a rule refuses a rendering, results are archived in any archive
that was prepared, whatever the version, the files and the results are. The report accounts for
every text, with one warning for each key that means no entry, and the archive is changed by the
texts whose keys mean one. -/
theorem Archive.archiveResults_accounted {a : Archive} {access : Access} (versionId : RowId)
    (results : FileResults) (files : List SourceFile) (language : String)
    (paths : a.layout.hasFilePaths = true) (rules : a.rules = [])
    (early : access.now ≤ Access.latestTime) (free : access.obstacle = none) :
    let bound := a.boundTexts versionId (givenTexts files results.entries)
    ∃ report b, (Action.archiveResults versionId results files language).Ends access a report b ∧
      report.Accounts a versionId results files ∧
      a.ChangedBy language access.now bound b ∧
      Event.keyWarnings (Action.archiveResults versionId results files language access a).events =
        report.unresolved.map (·.warning versionId) ∧
      (∀ u ∈ report.unresolved, (u.warning versionId).level = .warn) ∧
      ∀ filename rawKey, (Action.resolve versionId filename rawKey).Ends access a
        (a.resolve? versionId filename rawKey) a := by
  intro bound
  obtain ⟨report, b, ends⟩ := Action.exists_ends_archiveAligned versionId language paths rules
    early free files (results.map (·.map some))
  exact ⟨report, b, ends, Action.accounts_of_archiveResults paths ends,
    Action.changedBy_of_archiveResults paths ends, Action.warnings_archiveAligned paths ends,
    fun _ _ => rfl, fun _ _ => (Action.ends_resolve_iff paths).mpr ⟨rfl, rfl⟩⟩

/-- Two keys mean one entry, which has a rendering already, and a third means none; there are more
texts than keys, a file is not there, and another that is not there has no texts. -/
theorem Archive.archiveResults_accounted_of_shared_entry :
    let files : List SourceFile := [⟨"a.yml", [⟨"k", none⟩, ⟨"m", none⟩, ⟨"k:1", none⟩], []⟩]
    let results : FileResults := .ofList
      [("a.yml", ["A", "B", "C", "D"]), ("b.yml", ["U"]), ("c.yml", [])]
    ∃ (a b : Archive) (report : ArchiveReport), a.Reached (· ≤ ·) 3 ∧
      (Action.archiveResults 1 results files "ko").Ends { now := 4 } a report b ∧
      report.archived = 2 ∧ report.unresolved = [⟨"a.yml", "m"⟩] ∧
      "b.yml" ∈ report.unknownFiles ∧ "c.yml" ∉ report.unknownFiles ∧
      a.renderings.rows = [⟨1, 1, "ko", "old", 3⟩] ∧
      b.renderings.rows = [⟨1, 1, "ko", "C", 4⟩] := by
  intro files results
  let s : Store := { settings := {} }
  let former : List SourceFile := [⟨"a.yml", [⟨"k", none⟩], ["X"]⟩]
  let ops : List Operation := [.correct "Alpha" "a.yml" [⟨"k", "old"⟩] "ko", .snapshot 1 former,
    .ensureMod "Alpha" none]
  let given := givenTexts files results.entries
  obtain ⟨a, found, paths, rules, rows, bound, unbound⟩ : ∃ a ∈ (s.operateAll ops).archive? 0,
      a.layout.hasFilePaths = true ∧ a.rules = [] ∧
      a.renderings.rows = [⟨1, 1, "ko", "old", 3⟩] ∧
      a.boundTexts 1 given = [(1, "A"), (1, "C")] ∧
      a.unresolvedKeys 1 given = [⟨"a.yml", "m"⟩] := by decide +kernel
  have reached : a.Reached (· ≤ ·) 3 := ⟨_, 0, s.reached_operateAll ops, found⟩
  have early : ({ now := 4 } : Access).now ≤ Access.latestTime := by decide
  obtain ⟨report, b, ends, account, change, -⟩ :=
    Archive.archiveResults_accounted 1 results files "ko" paths rules early rfl
  obtain ⟨new, news, after⟩ := change.rows
  -- The one entry that is given a text has a rendering, so none is new.
  have none : new = [] := by
    refine List.eq_nil_iff_forall_not_mem.mpr fun t ht => ?_
    obtain ⟨given, bare⟩ := (news.entries t.entryId).mp (List.mem_map_of_mem ht)
    have first : (1 : RowId) ≠ t.entryId := bare ⟨1, 1, "ko", "old", 3⟩ (by rw [rows]; simp) rfl
    rw [bound] at given
    simp [boundText?, first] at given
  rw [rows, bound, none] at after
  refine ⟨a, b, report, reached, ends, ?_, account.unresolved.trans unbound, ?_, ?_, rows, after⟩
  · rw [account.archived, bound]
    rfl
  · exact (account.unknown "b.yml").mpr (by decide +kernel)
  · exact fun mem => absurd ((account.unknown "c.yml").mp mem) (by decide +kernel)

end LocalizationMemory
