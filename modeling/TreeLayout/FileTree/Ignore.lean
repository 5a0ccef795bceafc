import TreeLayout.FileTree.Basic
import TreeLayout.IgnoreList

/-!
# The ignore list of a directory

Reading the `.gitignore` file of a directory. Every line is read, and all malformed lines are
reported together; a line that is not text ends the reading. Byte order marks at the start of the
file mean nothing.
-/

namespace TreeLayout

namespace IgnoreList

/-- Why a line of a file is refused. -/
inductive LineFault where
  | glob (error : Glob.Error)
  | notText
deriving DecidableEq, Repr

/-- The wording of a line's fault. -/
def LineFault.message : LineFault → String
  | .glob error => error.message
  | .notText => AccessError.notText.message

/-- The refused lines of a file, each with its number. -/
structure LoadError where
  path : String
  faults : List (Nat × LineFault)
deriving DecidableEq, Repr

/-- The wording of a load error, a line for each refused line. -/
def LoadError.message (error : LoadError) : String :=
  String.intercalate "\n" (error.faults.map fun (number, fault) =>
    error.path ++ ": line " ++ toString number ++ ": " ++ fault.message)

/-- The text of the bytes of a line. -/
def decodeLine (bytes : List UInt8) : Option (List Char) :=
  (String.fromUTF8? ⟨bytes.toArray⟩).map String.toList

/-- Read lines of bytes, numbered from `number`: the ignore lines, and the refused lines. -/
def readLines (number : Nat) : List (List UInt8) → List IgnoreLine × List (Nat × LineFault)
  | [] => ([], [])
  | bytes :: rest =>
    match decodeLine bytes with
    | none => ([], [(number, .notText)])
    | some text =>
      let text := if number = 1 then text.dropWhile (· = '\ufeff') else text
      let (lines, faults) := readLines (number + 1) rest
      match IgnoreLine.parse text with
      | .ok none => (lines, faults)
      | .ok (some line) => (line :: lines, faults)
      | .error error => (lines, (number, .glob error) :: faults)

/-- The ignore list of a file, whose path is told in errors. -/
def ofFile (path : String) (contents : ByteArray) : Except LoadError IgnoreList :=
  match readLines 1 (Text.linesBy 0x0A 0x0D contents.toList) with
  | (lines, []) => .ok ⟨lines⟩
  | (_, faults) => .error ⟨path, faults⟩

/-- The name of an ignore file. -/
def fileName : String := ".gitignore"

/-- The ignore list of the directory that a path leads to; none without an ignore file. -/
def load (system : FileSystem) (directory : String) : Except LoadError (Option IgnoreList) :=
  let path := String.ofList (Text.joinPath directory.toList fileName.toList)
  match system.file? path with
  | none => .ok none
  | some contents => some <$> ofFile path contents

end IgnoreList

end TreeLayout
