import TreeLayout.Text.Path

/-!
# File trees

The files, links and directories below a directory, and the node that a path leads to in a file
system: a tree with a working directory. Absolute paths and absolute targets of links are followed
from the top of the tree, the others from the working directory or from where the link stands; the
directory above the top is the top itself. Links on the way and at the end of a path are followed,
up to a fixed number of them.

Permissions, devices and file names that are not text are not modelled, so every file, link and
directory can be read. The tree does not change while it is looked at.
-/

namespace TreeLayout

/-- Whether a text can name an entry of a directory, which `.` and `..` cannot: they name the
directory itself and the one above it. -/
def IsName (name : String) : Prop := name ≠ "" ∧ '/' ∉ name.toList ∧ name ≠ "." ∧ name ≠ ".."

instance (name : String) : Decidable (IsName name) :=
  inferInstanceAs (Decidable (name ≠ "" ∧ '/' ∉ name.toList ∧ name ≠ "." ∧ name ≠ ".."))

/-- The nodes of a directory, one after another. -/
inductive FileTree where
  | empty
  | file (name : String) (contents : ByteArray) (rest : FileTree)
  | link (name target : String) (rest : FileTree)
  | directory (name : String) (children rest : FileTree)

/-- What a name stands for in a directory. -/
inductive Node where
  | file (contents : ByteArray)
  | link (target : String)
  | directory (children : FileTree)

/-- Why a path leads nowhere or a node cannot be read. -/
inductive AccessError where
  | notFound
  | notADirectory
  | isADirectory
  | tooManyLinks
  | notText
deriving DecidableEq, Repr

/-- The wording of an access error. -/
def AccessError.message : AccessError → String
  | notFound => "No such file or directory (os error 2)"
  | notADirectory => "Not a directory (os error 20)"
  | isADirectory => "Is a directory (os error 21)"
  | tooManyLinks => "Too many levels of symbolic links (os error 40)"
  | notText => "stream did not contain valid UTF-8"

namespace FileTree

/-- The node with a name in a directory. -/
def node? (name : String) : FileTree → Option Node
  | empty => none
  | file other contents rest => if other = name then some (.file contents) else rest.node? name
  | link other target rest => if other = name then some (.link target) else rest.node? name
  | directory other children rest =>
    if other = name then some (.directory children) else rest.node? name

/-- Where following the names of a path ends: at a node, or at a link with names still to follow. -/
inductive Stop where
  | node (node : Node)
  | link (target : String) (above : List FileTree) (names : List String)

/-- Follow names from a directory, given with the directories above it, nearest first. Nothing lies
above the top. A file must be the end of the path. -/
def follow (current : FileTree) (above : List FileTree) : List String → Except AccessError Stop
  | [] => .ok (.node (.directory current))
  | name :: names =>
    if name = "" || name = "." then follow current above names
    else if name = ".." then
      match above with
      | [] => follow current [] names
      | parent :: above => follow parent above names
    else
      match current.node? name with
      | none => .error .notFound
      | some (.directory children) => follow children (current :: above) names
      | some (.file contents) =>
        if names = [] then .ok (.node (.file contents)) else .error .notADirectory
      | some (.link target) => .ok (.link target (current :: above) names)

/-- The names of a path. -/
def namesOf (path : String) : List String := (Text.segments path.toList).map String.ofList

/-- Whether a path starts at the top. -/
def isAbsolute (path : String) : Bool := path.toList.head? = some '/'

/-- Where the target of a link is followed from, given the directories above the link, nearest first:
an absolute target is followed from the farthest of them, the top. -/
def startOf (target : String) (above : List FileTree) : List FileTree :=
  if isAbsolute target then above.drop (above.length - 1) else above

/-- Follow names and at most `links` links. -/
def resolveFrom (current : FileTree) (above : List FileTree) (names : List String) :
    Nat → Except AccessError Node
  | 0 => .error .tooManyLinks
  | links + 1 =>
    match follow current above names with
    | .error error => .error error
    | .ok (.node node) => .ok node
    | .ok (.link target above names) =>
      match startOf target above with
      | current :: above =>
        if target = "" then .error .notFound
        else resolveFrom current above (namesOf target ++ names) links
      | [] => .error .notFound

/-- The greatest number of links on the way to a node. -/
def linkLimit : Nat := 40

end FileTree

/-- A file tree with a working directory, which is told by the names on the way to it from the top. -/
structure FileSystem where
  tree : FileTree
  working : List String := []

/-- A tree is a file system whose working directory is its top. -/
instance : Coe FileTree FileSystem := ⟨fun tree => { tree }⟩

namespace FileSystem

open FileTree (isAbsolute namesOf linkLimit)

/-- The names of a path, from the top. -/
def namesFromTop (system : FileSystem) (path : String) : List String :=
  if isAbsolute path then namesOf path else system.working ++ namesOf path

/-- The node that a path leads to. -/
def resolve (system : FileSystem) (path : String) : Except AccessError Node :=
  if path = "" then .error .notFound
  else system.tree.resolveFrom [] (system.namesFromTop path) (linkLimit + 1)

/-- The directory that a path leads to, if it leads to one. -/
def directory? (system : FileSystem) (path : String) : Option FileTree :=
  match system.resolve path with
  | .ok (.directory children) => some children
  | _ => none

/-- The contents of the file that a path leads to, if it leads to one. -/
def file? (system : FileSystem) (path : String) : Option ByteArray :=
  match system.resolve path with
  | .ok (.file contents) => some contents
  | _ => none

/-- Read the file that a path leads to as text. -/
def readText (system : FileSystem) (path : String) : Except AccessError String := do
  match ← system.resolve path with
  | .file contents =>
    match String.fromUTF8? contents with
    | some text => .ok text
    | none => .error .notText
  | _ => .error .isADirectory

end FileSystem

end TreeLayout
