import TreeLayout.Command.Run
import TreeLayout.FileTree.Build

/-!
# The program

Reads the trees that the command needs, runs the command that the arguments ask for, and writes what
it has to say. The trees are that of the current directory, that of the project, and the rules file
that the arguments name; a path in the settings or a link that leads elsewhere leads nowhere.
-/

namespace TreeLayout

/-- Read the nodes of a directory. A file that cannot be read has no contents. The target of a link is
the path that it leads to in the end, and there is none if it leads nowhere. -/
partial def readNodes : List IO.FS.DirEntry → IO FileTree
  | [] => return .empty
  | entry :: entries => do
    let rest ← readNodes entries
    match (← entry.path.symlinkMetadata).type with
    | .dir => return .directory entry.fileName (← readNodes (← entry.path.readDir).toList) rest
    | .symlink =>
      let target ← try pure (← IO.FS.realPath entry.path).toString catch _ => pure ""
      return .link entry.fileName target rest
    | .file =>
      let contents ← try IO.FS.readBinFile entry.path catch _ => pure .empty
      return .file entry.fileName contents rest
    | .other => return .file entry.fileName .empty rest

/-- Read the directory or file that a path leads to into a tree of the file system. -/
def readInto (tree : FileTree) (path : String) : IO FileTree := do
  match ← try some <$> IO.FS.realPath path catch _ => pure none with
  | none => return tree
  | some place =>
    let names := FileTree.entryNames place.toString
    if ← place.isDir then return (← readNodes (← place.readDir).toList).mount names tree
    else return tree.insert (.file (← IO.FS.readBinFile place)) names

/-- Read what a command needs of the file system. -/
def readSystem (target : Command.Target) : IO FileSystem := do
  let current ← IO.FS.realPath (← IO.currentDir)
  let paths := [".", target.directory] ++ target.config.toList
  return ⟨← paths.foldlM readInto .empty, FileTree.entryNames current.toString⟩

end TreeLayout

open TreeLayout in
/-- Run the command that the arguments ask for. -/
def main (arguments : List String) : IO UInt32 := do
  let outcome ← match Command.parse arguments with
    | .error usage => pure usage.outcome
    | .ok invocation => pure (Command.run (← readSystem invocation.target) invocation)
  (← IO.getStderr).putStr outcome.stderr
  (← IO.getStdout).putStr outcome.stdout
  return outcome.code
