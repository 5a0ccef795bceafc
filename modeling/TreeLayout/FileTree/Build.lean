import TreeLayout.FileTree.Basic

/-!
# Building file trees

Trees from written paths. The directories above a new node are made if they are missing; a node of
the same name is replaced, but a directory keeps what it holds, unless it is mounted.
-/

namespace TreeLayout.FileTree

/-- A directory without the node of a name. -/
def remove (name : String) : FileTree → FileTree
  | empty => empty
  | file other contents rest =>
    if other = name then rest.remove name else .file other contents (rest.remove name)
  | link other target rest =>
    if other = name then rest.remove name else .link other target (rest.remove name)
  | directory other children rest =>
    if other = name then rest.remove name else .directory other children (rest.remove name)

/-- The directory of a name in a directory, without contents if it is missing. -/
def childOf (name : String) (tree : FileTree) : FileTree :=
  match tree.node? name with
  | some (.directory children) => children
  | _ => .empty

/-- Put a node at the end of a path of names. -/
def insert (node : Node) : List String → FileTree → FileTree
  | [], tree => tree
  | [name], tree =>
    match node with
    | .file contents => .file name contents (tree.remove name)
    | .link target => .link name target (tree.remove name)
    | .directory _ => .directory name (tree.childOf name) (tree.remove name)
  | name :: names, tree =>
    .directory name (insert node names (tree.childOf name)) (tree.remove name)

/-- Put a directory with all that it holds at the end of a path of names. -/
def mount (children : FileTree) : List String → FileTree → FileTree
  | [], _ => children
  | name :: names, tree =>
    .directory name (mount children names (tree.childOf name)) (tree.remove name)

/-- The names of entries on a path. -/
def entryNames (path : String) : List String := (namesOf path).filter IsName

/-- Put a node at a written path, of which only the names of entries count. -/
def insertAt (node : Node) (path : String) (tree : FileTree) : FileTree :=
  tree.insert node (entryNames path)

/-- A tree with a node for a written path: an empty file, or a directory if the path ends in a
slash. -/
def insertPath (tree : FileTree) (path : String) : FileTree :=
  if Text.endsInSlash path.toList then tree.insertAt (.directory .empty) path
  else tree.insertAt (.file .empty) path

/-- The tree of some written paths, then some files with contents, then some links. -/
def build (paths : List String) (files : List (String × ByteArray))
    (links : List (String × String)) : FileTree :=
  let tree := paths.foldl insertPath .empty
  let tree := files.foldl (fun tree (path, contents) => tree.insertAt (.file contents) path) tree
  links.foldl (fun tree (path, target) => tree.insertAt (.link target) path) tree

end TreeLayout.FileTree
