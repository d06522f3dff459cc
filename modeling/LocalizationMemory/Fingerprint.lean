import LocalizationMemory.Digest.Sha256
import LocalizationMemory.Sorting
import LocalizationMemory.Source
import LocalizationMemory.Text.Bytes
import LocalizationMemory.Text.Hex

/-!
# The fingerprint of a snapshot

A snapshot is known by the texts it holds: the files are put in the order of
their names, and the bytes of all texts, one after the other with nothing
between them, are hashed. Neither keys nor file names enter, so that renamed keys
leave the fingerprint as it is.

## Main definitions

* `contentBytes` — the bytes that are hashed
* `snapshotHash` — their SHA-256 hash, as hexadecimal text
* `shortHash` — the first seven bytes of a hash, for reports

## Main results

* `contentBytes_eq_of_texts` — the bytes depend on the texts in file order alone
-/

namespace LocalizationMemory

/-- The files by ascending name; files of one name keep their order. -/
def sortedByName (files : List SourceFile) : List SourceFile :=
  sortBy (fun a b => decide (a.filename ≤ b.filename)) files

/-- The bytes of all texts, in the order of the file names. -/
def contentBytes (files : List SourceFile) : List UInt8 :=
  (sortedByName files).flatMap fun file => file.texts.flatMap Text.utf8

/-- The fingerprint of the texts of a list of files. -/
def snapshotHash (files : List SourceFile) : String :=
  Hex.encode (Sha256.digest (contentBytes files))

/-- The first seven bytes of a hash. A text that is shorter, or has a character
across that border, stands for itself. -/
def shortHash (hash : String) : String :=
  ((Text.takeBytes? 7 hash.toList).map String.ofList).getD hash

/-- The bytes depend on the texts in file order alone. -/
theorem contentBytes_eq_of_texts {a b : List SourceFile}
    (h : (sortedByName a).flatMap (·.texts) = (sortedByName b).flatMap (·.texts)) :
    contentBytes a = contentBytes b := by
  have key : ∀ l : List SourceFile, (l.flatMap fun file => file.texts.flatMap Text.utf8) =
      (l.flatMap (·.texts)).flatMap Text.utf8 := by
    intro l
    rw [List.flatMap_assoc]
  rw [contentBytes, contentBytes, key, key, h]

end LocalizationMemory
