import Mathlib.Data.List.Nodup
import LocalizationMemory.Fingerprint
import LocalizationMemory.Proofs.Sorting

/-!
# What a fingerprint tells apart

The bytes that are hashed are those of one text, all the texts of the files joined in the
order of the file names. So two lists of files are told apart exactly if these joined texts
differ: whatever is edited within them is noticed, and text that only moves over the border
to the next entry or the next file is not, since nothing marks the border.

## Main definitions

* `orderedTexts`, `joinedText` — the texts in the order in which they are hashed, and joined
* `SourceFile.nameAndTexts` — a file without its keys

## Main results

* `contentBytes_eq_iff` — the bytes are the same exactly if the joined texts are
* `contentBytes_ne_of_edit` — an edit of the joined text changes the bytes
* `joinedText_eq_of_perm` — neither keys nor the arrangement of the files play a part
* `snapshotHash_eq_iff` — so the fingerprint is that of the joined text
-/

namespace LocalizationMemory

/-- The texts of a list of files in the order in which they are hashed. -/
def orderedTexts (files : List SourceFile) : List String := (sortedByName files).flatMap (·.texts)

/-- All texts of a list of files, one after the other with nothing between them. -/
def joinedText (files : List SourceFile) : String := String.join (orderedTexts files)

/-- The name and the texts of a file, without its keys. -/
def SourceFile.nameAndTexts (f : SourceFile) : String × List String := (f.filename, f.texts)

variable {files files' : List SourceFile}

/-! ### The bytes -/

theorem contentBytes_eq_utf8 (files : List SourceFile) :
    contentBytes files = Text.utf8 (joinedText files) := by
  rw [joinedText, Text.utf8_join, orderedTexts, List.flatMap_assoc]
  rfl

/-- The bytes are the same exactly if the joined texts are. -/
theorem contentBytes_eq_iff :
    contentBytes files = contentBytes files' ↔ joinedText files = joinedText files' := by
  rw [contentBytes_eq_utf8, contentBytes_eq_utf8]
  exact ⟨Text.utf8_injective, congrArg Text.utf8⟩

/-- Texts that give way to others change the bytes, unless they are the same when joined. -/
theorem contentBytes_ne_of_edit {front rest old new : List String}
    (before : orderedTexts files = front ++ old ++ rest)
    (after : orderedTexts files' = front ++ new ++ rest)
    (edited : String.join old ≠ String.join new) : contentBytes files ≠ contentBytes files' := by
  rw [ne_eq, contentBytes_eq_iff, joinedText, joinedText, before, after]
  simpa [← String.toList_inj] using edited

/-! ### Keys and the arrangement of files -/

theorem map_sortedByName (files : List SourceFile) :
    (sortedByName files).map (·.nameAndTexts) =
      sortBy (fun p q => decide (p.1 ≤ q.1)) (files.map (·.nameAndTexts)) :=
  sortBy_map SourceFile.nameAndTexts (fun p q => decide (p.1 ≤ q.1)) files

/-- Files with the same names and texts, in whatever arrangement and under whatever keys, are
joined alike, if no two of them have one name. -/
theorem joinedText_eq_of_perm (distinct : (files.map (·.filename)).Nodup)
    (perm : (files'.map (·.nameAndTexts)).Perm (files.map (·.nameAndTexts))) :
    joinedText files' = joinedText files := by
  have names : ((files.map (·.nameAndTexts)).map (·.1)).Nodup := by
    rw [List.map_map]
    exact distinct
  have sorted : (sortedByName files').map (·.nameAndTexts) =
      (sortedByName files).map (·.nameAndTexts) := by
    rw [map_sortedByName, map_sortedByName]
    refine (sortBy_eq_of_perm (fun p q r => ?_) (fun p q => ?_) (fun p hp q hq => ?_) perm.symm).symm
    · simpa using String.le_trans
    · simpa using String.le_total p.1 q.1
    · intro le ge
      have same : p.1 = q.1 := String.le_antisymm (of_decide_eq_true le) (of_decide_eq_true ge)
      exact List.inj_on_of_nodup_map names hp hq same
  have texts (files : List SourceFile) :
      orderedTexts files = ((sortedByName files).map (·.nameAndTexts)).flatMap (·.2) := by
    rw [List.flatMap_map]
    rfl
  rw [joinedText, joinedText, texts, texts, sorted]

/-! ### The fingerprint -/

/-- The joined text decides the fingerprint. -/
theorem snapshotHash_eq_of_joinedText (same : joinedText files = joinedText files') :
    snapshotHash files = snapshotHash files' := by
  rw [snapshotHash, snapshotHash, contentBytes_eq_iff.mpr same]

/-- If the hash does not collide on the bytes of two lists of files, their fingerprints are the
same exactly if their joined texts are. -/
theorem snapshotHash_eq_iff
    (apart : Sha256.digest (contentBytes files) = Sha256.digest (contentBytes files') →
      contentBytes files = contentBytes files') :
    snapshotHash files = snapshotHash files' ↔ joinedText files = joinedText files' := by
  constructor
  · intro same
    exact contentBytes_eq_iff.mp (apart (Hex.encode_injective same))
  · exact snapshotHash_eq_of_joinedText

end LocalizationMemory
