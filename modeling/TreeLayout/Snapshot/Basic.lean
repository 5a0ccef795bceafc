import TreeLayout.Text.Path

/-!
# Snapshots of a tree

The files and directories of a tree as paths relative to its root, in depth-first order with
siblings by name. A snapshot can be built from written paths alone: a slash at the end marks a
directory, and the directories above each path belong to it.
-/

namespace TreeLayout

/-- Files and directories; links count as files. -/
inductive EntryKind where
  | directory
  | file
deriving DecidableEq, Repr

/-- An entry of a tree. -/
structure Entry where
  path : String
  kind : EntryKind
deriving DecidableEq, Repr

namespace Entry

/-- Whether an entry is a directory. -/
def isDirectory (entry : Entry) : Bool := entry.kind = .directory

/-- The order of entries: by path, and a directory before a file of the same path. -/
def le (a b : Entry) : Bool :=
  if a.path = b.path then a.isDirectory || !b.isDirectory
  else Text.pathLe a.path.toList b.path.toList

end Entry

/-- The entries of a tree at one moment. -/
structure Snapshot where
  entries : List Entry
deriving DecidableEq, Repr

namespace Snapshot

/-- The snapshot of some entries, without repetition. -/
def ofEntries (entries : List Entry) : Snapshot := ⟨entries.eraseDups.mergeSort Entry.le⟩

/-- The paths of the directories above a path, which end before its slashes. -/
def parents : List Char → List (List Char)
  | [] => []
  | c :: rest => (if c = '/' then [[]] else []) ++ (parents rest).map (c :: ·)

/-- The entries that a written path stands for: itself and the directories above it. -/
def entriesOfPath (written : String) : List Entry :=
  let text := Text.dropDotSlashes written.toList
  let path := Text.dropSlashes text
  if path = [] then []
  else
    let kind := if Text.endsInSlash text then .directory else .file
    ⟨.ofList path, kind⟩ :: (parents path).map fun parent => ⟨.ofList parent, .directory⟩

/-- The snapshot of some written paths. -/
def ofPaths (paths : List String) : Snapshot := ofEntries (paths.flatMap entriesOfPath)

/-- The paths of the files, in order. -/
def files (snapshot : Snapshot) : List String :=
  (snapshot.entries.filter fun entry => !entry.isDirectory).map Entry.path

end Snapshot

end TreeLayout
