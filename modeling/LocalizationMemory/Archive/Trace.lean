import LocalizationMemory.Fault
import LocalizationMemory.Key.Lookup

/-!
# What statements leave behind

A connection remembers how its last statement ended, and it keeps some queries for the
next time. A query is checked when it is made. One that was kept is checked again only
when it is asked, and if it is no longer sound then, that is told in other words.

## Main definitions

* `Verdict` — how a statement ended
* `Query` — the queries that are kept
* `Trace` — what the statements of an action leave behind
-/

namespace LocalizationMemory

/-- How a statement ended. -/
inductive Verdict where
  | success
  | failure (cause : DatabaseFault)
  deriving DecidableEq, Repr

/-- What a connection says of its last statement. -/
def Verdict.text : Verdict → String
  | success => "not an error"
  | failure cause => cause.reason

/-- The queries that a connection keeps. -/
inductive Query where
  | entriesOfFile
  | renderingHistory
  /-- A lookup by a kind of key pattern and a kind of file scope. -/
  | lookup (anyRevision named legacy : Bool)
  deriving DecidableEq, Repr

namespace Query

/-- The query that answers a lookup, whatever its key and file. -/
def ofLookup (l : Lookup) : Query :=
  .lookup (l.key matches .anyRevisionOf _) (l.file matches .exact _ | .exactOrLegacy _)
    (l.file matches .legacy | .exactOrLegacy _)

/-- The name by which a query calls the file of entries. -/
def fileColumn : Query → String
  | renderingHistory => "s.file_path"
  | _ => "file_path"

end Query

/-- What the statements of an action leave behind. -/
structure Trace where
  /-- How the last statement ended, if one was made. -/
  verdict : Option Verdict := none
  /-- The queries that were made and found sound. -/
  queries : List Query := []
  deriving DecidableEq, Repr

namespace Trace

/-- What one statement leaves behind that is not kept. -/
def ended (verdict : Verdict) : Trace := { verdict := some verdict }

/-- What statements leave behind after others. -/
def andThen (first second : Trace) : Trace :=
  ⟨second.verdict.or first.verdict, first.queries ++ second.queries⟩

end Trace

end LocalizationMemory
