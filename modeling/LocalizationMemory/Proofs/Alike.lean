import Mathlib.Data.List.Forall2
import LocalizationMemory.Proofs.Comparison

/-!
# Answers that agree but for renderings

Two histories of a file may agree but for the renderings of some keys. A comparison with
them then comes to the same entries with the same statuses, and passes the differences on
to the same keys. So what is requested and what is counted is the same.

## Main definitions

* `ArchivedEntry.AlikeBut` — entries of a history that agree but for a rendering
* `Plan.AlikeBut` — plans that agree but for renderings of keys of their files
* `Plan.bare` — a plan without its renderings

## Main results

* `classify_alikeBut` — a comparison passes differences of its history on to the same keys
* `Plan.AlikeBut.bare_eq`, `Plan.summary_bare`, `Plan.requests_bare` — plans that agree but
  for renderings count and request the same
-/

namespace LocalizationMemory

/-- Entries that are read agree, but for their rendering if their key is excepted. -/
structure ArchivedEntry.AlikeBut (excepted : String → Prop) (e e' : ArchivedEntry) : Prop where
  key : e'.key = e.key
  source : e'.source = e.source
  rendering : ¬ excepted e.key → e'.rendering = e.rendering

/-- A planned entry without its rendering. -/
def PlannedEntry.bare (e : PlannedEntry) : PlannedEntry := { e with rendering := none }

/-- A planned file without its renderings. -/
def FilePlan.bare (f : FilePlan) : FilePlan := { f with entries := f.entries.map (·.bare) }

/-- A plan without its renderings. -/
def Plan.bare (p : Plan) : Plan := { p with files := p.files.map (·.bare) }

/-- Planned entries agree, but for their rendering if their key is excepted. -/
structure PlannedEntry.AlikeBut (excepted : String → Prop) (e e' : PlannedEntry) : Prop where
  bare : e'.bare = e.bare
  rendering : ¬ excepted e.key → e'.rendering = e.rendering

/-- Planned files agree, but for renderings of excepted keys. -/
structure FilePlan.AlikeBut (excepted : String → String → Prop) (f f' : FilePlan) : Prop where
  filename : f'.filename = f.filename
  entries : List.Forall₂ (PlannedEntry.AlikeBut (excepted (baseName f.filename))) f.entries
    f'.entries

/-- Plans agree, but for renderings of keys that are excepted in their files. -/
structure Plan.AlikeBut (excepted : String → String → Prop) (p p' : Plan) : Prop where
  modName : p'.modName = p.modName
  language : p'.language = p.language
  files : List.Forall₂ (FilePlan.AlikeBut excepted) p.files p'.files

section Related

variable {α β γ : Type} {R : α → β → Prop} {l : List α} {l' : List β}

theorem eq_of_forall₂ {R : α → α → Prop} {l l' : List α} (same : ∀ x y, R x y → y = x)
    (related : List.Forall₂ R l l') : l' = l := by
  have equal : List.Forall₂ (· = ·) l l' := related.imp fun x y first => (same x y first).symm
  rw [List.forall₂_eq_eq_eq] at equal
  exact equal.symm

theorem map_eq_map_of_forall₂ {f : α → γ} {g : β → γ} (same : ∀ x y, R x y → g y = f x)
    (related : List.Forall₂ R l l') : l'.map g = l.map f := by
  refine eq_of_forall₂ (R := fun z z' => z' = z) (fun _ _ equal => equal) ?_
  rw [List.forall₂_map_left_iff, List.forall₂_map_right_iff]
  exact related.imp same

/-- Of related lists the first elements with a property are related, if the relation respects it. -/
theorem find?_rel_of_forall₂ {p : α → Bool} {q : β → Bool} (same : ∀ x y, R x y → p x = q y)
    (related : List.Forall₂ R l l') : Option.Rel R (l.find? p) (l'.find? q) := by
  induction related with
  | nil => exact .none
  | @cons x y r r' first _ ih =>
    rw [List.find?_cons, List.find?_cons, ← same x y first]
    cases p x with
    | true => exact .some first
    | false => exact ih

/-- Of related lists the elements have properties together, if the relation respects them. -/
theorem forall_mem_iff_of_forall₂ {P : α → Prop} {Q : β → Prop} (same : ∀ x y, R x y → (P x ↔ Q y))
    (related : List.Forall₂ R l l') : (∀ x ∈ l, P x) ↔ ∀ y ∈ l', Q y := by
  induction related with
  | nil => simp
  | cons first _ ih => rw [List.forall_mem_cons, List.forall_mem_cons, same _ _ first, ih]

end Related

/-- Renderings play no part in the summary of a plan. -/
theorem Plan.summary_bare (p : Plan) : p.bare.summary = p.summary := by
  have statuses (status : EntryStatus) (entries : List PlannedEntry) :
      Summary.count status (entries.map (·.bare)) = Summary.count status entries := by
    rw [Summary.count, List.countP_map]
    rfl
  have entries : p.bare.files.flatMap (·.entries) =
      (p.files.flatMap (·.entries)).map (·.bare) := by
    rw [bare, List.flatMap_map, List.map_flatMap]
    rfl
  rw [summary, entries, Summary.ofEntries, statuses, statuses, statuses]
  rfl

/-- Renderings play no part in what a translator is asked for. -/
theorem Plan.requests_bare (p : Plan) : p.bare.requests = p.requests := by
  have texts (f : FilePlan) : f.bare.dirtyTexts = f.dirtyTexts := by
    rw [FilePlan.dirtyTexts, FilePlan.bare, List.filter_map, List.map_map]
    rfl
  rw [requests, bare, List.filter_map, List.map_map]
  simp only [Function.comp_def, texts]
  rfl

theorem ArchivedEntry.AlikeBut.eq_of_none {excepted : String → Prop} {e e' : ArchivedEntry}
    (none : ∀ key, ¬ excepted key) (alike : e.AlikeBut excepted e') : e' = e := by
  have same := alike.rendering (none _)
  calc e' = ⟨e'.key, e'.source, e'.rendering⟩ := rfl
    _ = ⟨e.key, e.source, e.rendering⟩ := by rw [alike.key, alike.source, same]
    _ = e := rfl

theorem PlannedEntry.AlikeBut.eq_of_none {excepted : String → Prop} {e e' : PlannedEntry}
    (none : ∀ key, ¬ excepted key) (alike : e.AlikeBut excepted e') : e' = e := by
  have same := alike.rendering (none _)
  calc e' = { e'.bare with rendering := e'.rendering } := rfl
    _ = { e.bare with rendering := e.rendering } := by rw [alike.bare, same]
    _ = e := rfl

namespace Plan.AlikeBut

variable {excepted : String → String → Prop} {p p' : Plan}

/-- Plans that agree but for renderings are the same without them. -/
theorem bare_eq (alike : p.AlikeBut excepted p') : p'.bare = p.bare := by
  have files : p'.files.map (·.bare) = p.files.map (·.bare) := by
    refine map_eq_map_of_forall₂ (fun f f' related => ?_) alike.files
    rw [FilePlan.bare, FilePlan.bare, related.filename,
      map_eq_map_of_forall₂ (fun _ _ same => same.bare) related.entries]
  rw [bare, bare, alike.modName, alike.language, files]

theorem eq_of_none (none : ∀ file key, ¬ excepted file key) (alike : p.AlikeBut excepted p') :
    p' = p := by
  have files : p'.files = p.files := by
    refine eq_of_forall₂ (fun f f' related => ?_) alike.files
    have entries : f'.entries = f.entries :=
      eq_of_forall₂ (fun _ _ same => same.eq_of_none (none _)) related.entries
    exact congrArg₂ FilePlan.mk related.filename entries
  calc p' = ⟨p'.modName, p'.language, p'.files⟩ := rfl
    _ = ⟨p.modName, p.language, p.files⟩ := by rw [alike.modName, alike.language, files]

end Plan.AlikeBut

/-! ### Comparing with histories that agree -/

section Histories

variable {excepted : String → Prop} {history history' : List ArchivedEntry}
  (alike : List.Forall₂ (ArchivedEntry.AlikeBut excepted) history history')

include alike

theorem lastWithKey?_rel (key : String) :
    Option.Rel (ArchivedEntry.AlikeBut excepted) (lastWithKey? history key)
      (lastWithKey? history' key) :=
  find?_rel_of_forall₂ (fun _ _ related => by rw [related.key]) (List.rel_reverse alike)

theorem classifyEntry_alikeBut (info : KeyInfo) (source : String) :
    (classifyEntry history info source).AlikeBut excepted (classifyEntry history' info source) := by
  have past := lastWithKey?_rel alike (Key.normalize info.keyPart)
  have key {e : ArchivedEntry} (found : lastWithKey? history (Key.normalize info.keyPart) = some e) :
      e.key = Key.normalize info.keyPart := (mem_of_lastWithKey? found).2
  unfold classifyEntry
  dsimp only
  generalize lastWithKey? history (Key.normalize info.keyPart) = found at past key
  generalize lastWithKey? history' (Key.normalize info.keyPart) = found' at past
  cases past with
  | none => exact ⟨rfl, fun _ => rfl⟩
  | @some e e' related =>
    dsimp only
    rw [related.source]
    split
    · exact ⟨rfl, fun kept => related.rendering (key rfl ▸ kept)⟩
    · exact ⟨rfl, fun _ => rfl⟩

end Histories

/-- A comparison passes differences of its history on to entries of the same keys. -/
theorem classify_alikeBut {excepted : String → String → Prop} (file : SourceFile)
    {history history' : List ArchivedEntry}
    (alike : List.Forall₂ (ArchivedEntry.AlikeBut (excepted (baseName file.filename))) history
      history') :
    (classify file history).AlikeBut excepted (classify file history') where
  filename := rfl
  entries := by
    rw [classify, classify, List.forall₂_map_left_iff, List.forall₂_map_right_iff]
    exact List.forall₂_same.mpr fun p _ => classifyEntry_alikeBut alike p.1 p.2

end LocalizationMemory
