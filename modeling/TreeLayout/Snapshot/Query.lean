import TreeLayout.Snapshot.Basic
import TreeLayout.Glob.Basic
import TreeLayout.Query

/-!
# Asking a snapshot

A pattern is a glob for the whole path of an entry. One `./` at its start means nothing; slashes at
its end ask for directories, which are then reported with a slash.
-/

namespace TreeLayout

/-- A pattern as a question about entries. -/
structure EntryQuery where
  glob : Glob
  directoriesOnly : Bool

namespace EntryQuery

/-- Read a pattern. -/
def ofPattern (pattern : String) : Except Glob.Error EntryQuery := do
  let text := Text.dropDotSlash pattern.toList
  return ⟨← Glob.compile (.ofList (Text.dropSlashes text)), Text.endsInSlash text⟩

/-- Whether an entry is asked for. -/
def selects (query : EntryQuery) (entry : Entry) : Bool :=
  (!query.directoriesOnly || entry.isDirectory) && query.glob.isMatch entry.path.toList

/-- How a selected entry is reported. -/
def report (query : EntryQuery) (entry : Entry) : String :=
  if query.directoriesOnly then entry.path ++ "/" else entry.path

end EntryQuery

namespace Snapshot

/-- The paths that a pattern matches, in the order of the snapshot. -/
def pathsMatching (snapshot : Snapshot) (pattern : String) : Except Glob.Error (List String) := do
  let query ← EntryQuery.ofPattern pattern
  return (snapshot.entries.filter query.selects).map query.report

/-- Whether a pattern matches an entry. -/
def anyMatching (snapshot : Snapshot) (pattern : String) : Except Glob.Error Bool := do
  let query ← EntryQuery.ofPattern pattern
  return snapshot.entries.any query.selects

/-- The matcher that answers from a snapshot. -/
def matcher (snapshot : Snapshot) : Matcher := ⟨snapshot.pathsMatching, snapshot.anyMatching⟩

end Snapshot

end TreeLayout
