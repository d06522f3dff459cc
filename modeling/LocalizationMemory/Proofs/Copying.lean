import LocalizationMemory.Proofs.Store

/-!
# What copying an archive leaves alone

A copy of an archive to the file of a path makes the directories of the path, opens the
file, gives it tables, exchanges its archive and closes it. None of this touches any other
file, and what stands at a place stays there. A copy that is made has the archive as it
was shown.

## Main definitions

* `Disk.fileAt?`, `Disk.archiveAt?` — the file that a path names, and its archive
* `Disk.SameBut` — all files but one hold what they held
* `Disk.GainsDirectories` — at some places where nothing stood there are directories

## Main results

* `Disk.openNamed_cases` — a file that is opened by its name stood there or is new
* `Disk.sameBut_makeTables`, `Disk.sameBut_copyArchive`, `Disk.sameBut_closeFile` — what is
  done to one file leaves the others alone
* `Disk.gainsDirectories_createDirectories` — making directories takes nothing away
* `Disk.fileAt?_of_openFile`, `Disk.sameBut_of_openFile` — opening a file leaves it at its path,
  and the others alone
* `Disk.exists_makeTables` — tables are made in a file that can be changed
-/

namespace LocalizationMemory.Disk

variable {d d' d'' : Disk} {id other : FileId} {h : Handle} {place : List String}

/-- The file that the path of a database names. -/
def fileAt? (d : Disk) (path : String) : Option FileId :=
  match Location.ofPath path with
  | .error _ => none
  | .ok l =>
    if l.isNameless then none
    else
      match d.node? (Path.place (Path.steps l.path)) with
      | some (.file id) => some id
      | _ => none

/-- The archive in the file that the path of a database names. -/
def archiveAt? (d : Disk) (path : String) : Option Archive := (d.fileAt? path).bind d.archive?

theorem fileAt?_eq_some_iff {path : String} {l : Location} (asked : Location.ofPath path = .ok l)
    (named : l.isNameless = false) :
    d.fileAt? path = some id ↔ d.node? (Path.place (Path.steps l.path)) = some (.file id) := by
  simp only [fileAt?, asked, named, Bool.false_eq_true, if_false]
  split
  · next found => simp [found]
  · next other =>
    constructor
    · intro impossible
      cases impossible
    · intro found
      exact absurd found (other id)

/-! ### Names -/

theorem node?_congr (same : d'.nodes = d.nodes) (place : List String) :
    d'.node? place = d.node? place := by
  unfold node?
  rw [same]

theorem fileAt?_congr (same : d'.nodes = d.nodes) (path : String) :
    d'.fileAt? path = d.fileAt? path := by
  unfold fileAt?
  simp only [node?_congr same]

/-- A new node stands at its place, and what stands elsewhere stays. -/
theorem node?_setNode (d : Disk) {place : List String} (below : place ≠ []) (node : Node)
    (elsewhere : List String) :
    (d.setNode place node).node? elsewhere =
      if elsewhere = place then some node else d.node? elsewhere := by
  by_cases same : elsewhere = place
  · subst same
    simp [node?, setNode, below]
  · have differs : (place == elsewhere) = false := by simpa using Ne.symm same
    have kept : ∀ nodes : List (List String × Node),
        (nodes.filter (·.1 != place)).find? (·.1 == elsewhere) =
          nodes.find? (·.1 == elsewhere) := by
      intro nodes
      rw [List.find?_filter]
      refine congrArg (List.find? · nodes) (funext fun n => ?_)
      by_cases at_ : n.1 = elsewhere
      · simp [at_, same]
      · simp [at_]
    simp [node?, setNode, differs, kept, same]

/-- At some places where nothing stood there are directories now, and that is all. -/
def GainsDirectories (d d' : Disk) : Prop :=
  ∀ place, d'.node? place = d.node? place ∨
    d.node? place = none ∧ d'.node? place = some .directory

namespace GainsDirectories

theorem refl (d : Disk) : GainsDirectories d d := fun _ => .inl rfl

theorem trans (first : GainsDirectories d d') (second : GainsDirectories d' d'') :
    GainsDirectories d d'' := by
  intro place
  obtain same | ⟨before, after⟩ := first place
  · rw [← same]
    exact second place
  · obtain same' | ⟨before', -⟩ := second place
    · exact .inr ⟨before, same'.trans after⟩
    · rw [after] at before'
      cases before'

/-- A file stands where it stood. -/
theorem file_iff (gains : GainsDirectories d d') :
    d'.node? place = some (.file id) ↔ d.node? place = some (.file id) := by
  obtain same | ⟨before, after⟩ := gains place
  · rw [same]
  · simp [before, after]

end GainsDirectories

theorem gainsDirectories_createDirectory {steps : List String}
    (made : d.createDirectory steps = .ok d') : GainsDirectories d d' := by
  rw [createDirectory] at made
  split at made
  · cases made
  · split at made
    · cases made
    · cases made
    · dsimp only at made
      split at made
      · cases made
      · split at made
        · cases made
        · next free =>
          cases made
          simp only [Bool.or_eq_true, decide_eq_true_eq, not_or, Bool.not_eq_true,
            Option.isSome_eq_false_iff, Option.isNone_iff_eq_none] at free
          have below : Path.place steps ≠ [] := by
            intro root
            rw [root] at free
            cases free.2
          intro place
          rw [node?_setNode d below]
          by_cases same : place = Path.place steps
          · rw [if_pos same, same]
            exact .inr ⟨free.2, rfl⟩
          · rw [if_neg same]
            exact .inl rfl

theorem gainsDirectories_createAll (back : List String) (d : Disk) :
    GainsDirectories d (createAll back d).2 := by
  induction back with
  | nil => exact .refl d
  | cons s above ih =>
    rw [createAll]
    split
    · next made => exact gainsDirectories_createDirectory made
    · rcases all : createAll above d with ⟨_ | fault, made⟩
      · rw [all] at ih
        dsimp only
        split
        · next after => exact ih.trans (gainsDirectories_createDirectory after)
        · exact ih
      · rw [all] at ih
        exact ih
    · exact .refl d

theorem gainsDirectories_createDirectories (steps : List String) (d : Disk) :
    GainsDirectories d (d.createDirectories steps).2 := by
  rw [createDirectories]
  split
  · exact .refl d
  · split
    · exact .refl d
    · exact gainsDirectories_createAll steps.reverse d

/-! ### Other files -/

/-- All files but one hold what they held. -/
def SameBut (id : FileId) (d d' : Disk) : Prop :=
  ∀ other, other ≠ id → d'.stored? other = d.stored? other

theorem SameBut.of_contents (same : d'.contents = d.contents) : SameBut id d d' :=
  fun other _ => stored?_congr same other

theorem SameBut.trans (first : SameBut id d d') (second : SameBut id d' d'') : SameBut id d d'' :=
  fun other differs => (second other differs).trans (first other differs)

theorem sameBut_setStored (d : Disk) (id : FileId) (moved : StoredArchive) :
    SameBut id d (d.setContent id (.archive moved)) :=
  fun other differs => by rw [stored?_setStored, if_neg differs]

theorem sameBut_setArchive (d : Disk) (id : FileId) (a : Archive) :
    SameBut id d (d.setArchive id a) :=
  sameBut_setStored d id _

theorem sameBut_closeFile (d : Disk) (h : Handle) : SameBut h.file d (d.closeFile h) := by
  rw [closeFile]
  split
  · exact .of_contents rfl
  · dsimp only
    split
    · exact .of_contents rfl
    · rw [settle]
      split
      · exact (SameBut.of_contents rfl).trans (sameBut_setStored _ _ _)
      · exact .of_contents rfl

theorem sameBut_makeTables (made : d.makeTables h = .ok d') : SameBut h.file d d' := by
  rw [makeTables] at made
  split at made
  · cases made
  · split at made
    · cases made
      exact .of_contents rfl
    · split at made
      · cases made
      · cases made
        exact sameBut_setArchive _ _ _

theorem sameBut_copyArchive (d : Disk) (origin : StoredArchive) (target : FileId) :
    SameBut target d (d.copyArchive origin target) := by
  rw [copyArchive]
  split
  · exact sameBut_setStored _ _ _
  · exact .of_contents rfl

theorem seen_congr (same : d'.stored? h.file = d.stored? h.file) : d'.seen h = d.seen h := by
  unfold seen
  rw [same]

/-! ### Names that stay -/

theorem nodes_closeFile (d : Disk) (h : Handle) : (d.closeFile h).nodes = d.nodes := by
  rw [closeFile]
  split
  · rfl
  · dsimp only
    split
    · rfl
    · rw [settle]
      split <;> rfl

theorem nodes_makeTables (made : d.makeTables h = .ok d') : d'.nodes = d.nodes := by
  rw [makeTables] at made
  split at made
  · cases made
  · split at made
    · cases made
      rfl
    · split at made
      · cases made
      · cases made
        rfl

theorem nodes_copyArchive (d : Disk) (origin : StoredArchive) (target : FileId) :
    (d.copyArchive origin target).nodes = d.nodes := by
  rw [copyArchive]
  split <;> rfl

/-! ### The file that is written to -/

theorem archive?_closeFile (d : Disk) (h : Handle) (id : FileId) :
    (d.closeFile h).archive? id = d.archive? id := by
  have same (d' : Disk) (contents : d'.contents = d.contents) : d'.archive? id = d.archive? id := by
    rw [archive?, archive?, stored?_congr contents]
  rw [closeFile]
  split
  · rfl
  · dsimp only
    split
    · exact same _ rfl
    · rw [archive?_settle]
      exact same _ rfl

/-- Where there was an archive there is the copy. -/
theorem archive?_copyArchive {origin stored : StoredArchive}
    (before : d.stored? id = some stored) :
    (d.copyArchive origin id).archive? id = some origin.archive := by
  rw [copyArchive, before, archive?, stored?_setStored, if_pos rfl]
  rfl

/-- What is seen is in a file. -/
theorem exists_stored_of_seen {shown : StoredArchive} (seen : d.seen h = .ok shown) :
    ∃ stored, d.stored? h.file = some stored := by
  cases found : d.stored? h.file with
  | none => simp [Disk.seen, found] at seen
  | some stored => exact ⟨stored, rfl⟩

/-- What has its tables made is an archive. -/
theorem exists_stored_of_makeTables (made : d.makeTables h = .ok d') :
    ∃ stored, d'.stored? h.file = some stored := by
  rw [makeTables] at made
  split at made
  · cases made
  · next shown =>
    split at made
    · cases made
      exact exists_stored_of_seen shown
    · split at made
      · cases made
      · cases made
        exact ⟨_, stored?_setContent _ _ _⟩

/-- What can be changed through a handle can be written to, and no rival is in the way. -/
theorem writable_of_changeFault? {stored : StoredArchive}
    (free : d.changeFault? h stored = none) : h.readOnly = false ∧ d.isHeld h = false := by
  unfold changeFault? at free
  split at free
  · cases free
  · next writable =>
    split at free
    · cases free
    · next unheld => exact ⟨Bool.eq_false_iff.mpr writable, Bool.eq_false_iff.mpr unheld⟩

/-- What can be changed has its tables made, and can be changed still. -/
theorem exists_makeTables {stored : StoredArchive} (sound : h.Sound)
    (seen : d.seen h = .ok stored) (free : d.changeFault? h stored = none) :
    ∃ d', d.makeTables h = .ok d' ∧ d'.isHeld h = false := by
  obtain ⟨writable, unheld⟩ := writable_of_changeFault? free
  rw [makeTables, seen]
  dsimp only
  by_cases tables : stored.archive.layout.hasTables = true
  · rw [if_pos tables]
    exact ⟨d, rfl, unheld⟩
  · rw [if_neg tables, free]
    refine ⟨_, rfl, ?_⟩
    rw [isHeld_setArchive (stored?_of_seen seen (sound.thawed writable))]
    exact unheld

/-! ### Opening -/

/-- A file that is opened by its name stood there, or it is new and without tables. -/
theorem openNamed_cases {path : String} {l : Location}
    (opened : d.openNamed path l = .ok (h, d')) :
    h.frozen = l.frozen ∧ h.unguarded = l.isUnguarded ∧
      ((d.node? (Path.place (Path.steps l.path)) = some (.file h.file) ∧
          ∃ uses, d' = { d with uses }) ∨
        (d.node? (Path.place (Path.steps l.path)) = none ∧ h.file = d.nextFile ∧
          ∃ uses, d' = { (d.addFile (.archive {})).2.setNode (Path.place (Path.steps l.path))
            (.file d.nextFile) with uses })) := by
  have use_eq (d : Disk) (h : Handle) : ∃ uses, (d.use h).2 = { d with uses } := by
    rw [use]
    dsimp only
    split
    · exact ⟨d.uses, rfl⟩
    · exact ⟨_, rfl⟩
  rw [openNamed] at opened
  dsimp only at opened
  split at opened
  · cases opened
  · split at opened
    · next id found =>
      have handle := congrArg Prod.fst (Except.ok.inj opened)
      have disk := congrArg Prod.snd (Except.ok.inj opened)
      dsimp only at handle disk
      subst handle disk
      exact ⟨rfl, rfl, .inl ⟨found, use_eq _ _⟩⟩
    · cases opened
    · next free =>
      split at opened
      · have handle := congrArg Prod.fst (Except.ok.inj opened)
        have disk := congrArg Prod.snd (Except.ok.inj opened)
        dsimp only at handle disk
        subst handle disk
        exact ⟨rfl, rfl, .inr ⟨free, rfl, use_eq _ _⟩⟩
      · cases opened

section Named

variable {path : String} {l : Location} (asked : Location.ofPath path = .ok l)
  (named : l.isNameless = false) (opened : d.openFile path = .ok (h, d'))

include asked named opened

theorem openNamed_of_openFile : d.openNamed path l = .ok (h, d') := by
  rw [openFile, asked] at opened
  split at opened
  · cases opened
  · simpa only [named, Bool.false_eq_true, if_false] using opened

/-- A path by which a file can be written to does not say that it never changes. -/
theorem frozen_of_openFile (writable : h.readOnly = false) : l.frozen = false := by
  obtain ⟨frozen, -⟩ := openNamed_cases (openNamed_of_openFile asked named opened)
  rw [← frozen]
  exact (sound_of_openFile opened).thawed writable

/-- The file that is opened stands where the path leads. -/
theorem fileAt?_of_openFile : d'.fileAt? path = some h.file := by
  rw [fileAt?_eq_some_iff asked named]
  obtain ⟨-, -, ⟨found, uses, rfl⟩ | ⟨free, new, uses, rfl⟩⟩ :=
    openNamed_cases (openNamed_of_openFile asked named opened)
  · exact found
  · have below : Path.place (Path.steps l.path) ≠ [] := by
      intro root
      rw [root] at free
      cases free
    exact (node?_setNode _ below _ _).trans (by rw [if_pos rfl, new])

/-- What stood at some place stays there. -/
theorem node?_of_openFile {place : List String} (stood : (d.node? place).isSome = true) :
    d'.node? place = d.node? place := by
  obtain ⟨-, -, ⟨found, uses, rfl⟩ | ⟨free, new, uses, rfl⟩⟩ :=
    openNamed_cases (openNamed_of_openFile asked named opened)
  · rfl
  · have elsewhere : place ≠ Path.place (Path.steps l.path) := by
      intro same
      rw [same, free] at stood
      cases stood
    have below : Path.place (Path.steps l.path) ≠ [] := by
      intro root
      rw [root] at free
      cases free
    exact (node?_setNode _ below _ _).trans (if_neg elsewhere)

theorem sameBut_of_openFile : SameBut h.file d d' := by
  obtain ⟨-, -, ⟨found, uses, rfl⟩ | ⟨free, new, uses, rfl⟩⟩ :=
    openNamed_cases (openNamed_of_openFile asked named opened)
  · exact .of_contents rfl
  · intro other differs
    rw [new] at differs
    exact (stored?_addFile d {} other).trans (if_neg differs)

/-- A file that stood there is opened without a change of what disks hold. -/
theorem exists_uses_of_openFile {id : FileId} (stood : d.fileAt? path = some id) :
    h.file = id ∧ ∃ uses, d' = { d with uses } := by
  rw [fileAt?_eq_some_iff asked named] at stood
  obtain ⟨-, -, ⟨found, uses, rfl⟩ | ⟨free, -⟩⟩ :=
    openNamed_cases (openNamed_of_openFile asked named opened)
  · rw [stood] at found
    cases found
    exact ⟨rfl, uses, rfl⟩
  · rw [stood] at free
    cases free

/-- A file that is opened is another than one whose id was given out and that the path does
not name. -/
theorem file_ne_of_openFile {stored : StoredArchive} (counted : d.Counted)
    (known : d.stored? id = some stored) (apart : d.fileAt? path ≠ some id) : h.file ≠ id := by
  rintro rfl
  obtain ⟨-, -, ⟨found, -⟩ | ⟨-, new, -⟩⟩ :=
    openNamed_cases (openNamed_of_openFile asked named opened)
  · exact apart ((fileAt?_eq_some_iff asked named).mpr found)
  · have old := counted _ _ known
    rw [new] at old
    exact absurd old (Nat.lt_irrefl _)

end Named

end LocalizationMemory.Disk
