import TreeLayout.FileTree.Basic
import TreeLayout.Snapshot.Basic
import TreeLayout.Glob.Basic
import TreeLayout.Rules.Error

/-!
# Snapshots of file trees

The walk through a directory that yields its snapshot. The walk joins names to the path of the
directory as it is spelt, and what it records is relative to this path again. Entries named `.git`,
and those that an exclude glob matches, are left out with everything below them. Links are files and
are not followed, except for a link that is the directory itself.

A walk that comes to an entry which cannot be read would fail there. All entries of a file tree can be
read, so there is no such failure.
-/

namespace TreeLayout

/-- Why a directory has no snapshot. -/
inductive CaptureError where
  | notADirectory (root : String)
  | invalidGlob (error : Glob.Error)
deriving DecidableEq, Repr

/-- The wording of a capture error. -/
def CaptureError.message : CaptureError → String
  | notADirectory root => "I/O error: project directory does not exist: " ++ root
  | invalidGlob error => error.patternMessage

namespace FileTree

/-- The name of the directory that version control keeps for itself. -/
def gitName : String := ".git"

/-- Whether the walk below a root leaves out an entry with a path and a name, and with it everything
below the entry. The globs are matched against the path relative to the root; where there is none, or
an empty one, they leave nothing out. -/
def isLeftOut (exclude : List Glob) (root path : List Char) (name : String) : Bool :=
  name = gitName ||
    match Text.relativeTo? root path with
    | none => false
    | some relative => !relative.isEmpty && exclude.any (·.isMatchInSet relative)

/-- What is recorded for a path of a walk below a root: nothing for a path that is not below it. -/
def recordOf (root path : List Char) (kind : EntryKind) : List Entry :=
  match Text.relativeTo? root path with
  | none => []
  | some relative => [⟨.ofList relative, kind⟩]

/-- What is recorded for a file or link with a name in a directory. -/
def recordOfFile (exclude : List Glob) (root place : List Char) (name : String) : List Entry :=
  let path := Text.joinPath place name.toList
  if isLeftOut exclude root path name then [] else recordOf root path .file

/-- The entries that a walk below a root records in a directory and in those below it, in the order
of the tree. The paths of the walk start with the root as it is spelt. -/
def walk (exclude : List Glob) (root place : List Char) : FileTree → List Entry
  | empty => []
  | file name _ rest =>
    recordOfFile exclude root place name ++ walk exclude root place rest
  | link name _ rest =>
    recordOfFile exclude root place name ++ walk exclude root place rest
  | directory name children rest =>
    let path := Text.joinPath place name.toList
    (if isLeftOut exclude root path name then []
      else recordOf root path .directory ++ walk exclude root path children) ++
      walk exclude root place rest

end FileTree

/-- The snapshot of the directory that a path leads to. -/
def FileSystem.capture (system : FileSystem) (root : String) (exclude : List String) :
    Except CaptureError Snapshot := do
  match system.directory? root with
  | none => throw (.notADirectory root)
  | some top =>
    let globs ← (exclude.mapM Glob.compile).mapError .invalidGlob
    return .ofEntries (top.walk globs root.toList root.toList)

/-- The snapshot of a directory in a tree, as it is seen from the top. -/
def FileTree.capture (tree : FileTree) (root : String) (exclude : List String) :
    Except CaptureError Snapshot :=
  FileSystem.capture tree root exclude

end TreeLayout
