import TreeLayout.Command.Usage
import TreeLayout.FileTree.Capture
import TreeLayout.FileTree.Ignore
import TreeLayout.Settings.Reader
import TreeLayout.Rules.Compilation
import TreeLayout.Report.Check

/-!
# Loading a project

What a command needs to know about a project: its settings, its tree at one moment, the rules in
force for that tree, and the ignore list if its files are allowed. They are loaded in this order,
except that the rules file is read before the tree is looked at, and the first failure ends the
loading.
-/

namespace TreeLayout

/-- The settings of the project in a directory, the defaults without a settings file. -/
def Settings.find (system : FileSystem) (directory : String) :
    Except (AccessError ⊕ Settings.Error) Settings :=
  let path := String.ofList (Text.joinPath directory.toList Settings.fileName.toList)
  if (system.file? path).isNone then .ok .default
  else
    match system.readText path with
    | .error error => .error (.inl error)
    | .ok text => (Settings.parse text).mapError .inr

/-- A project as a command sees it. -/
structure Project where
  settings : Settings
  /-- The path of the rules file, as it was given. -/
  rulesPath : String
  snapshot : Snapshot
  rules : List Rule
  /-- The ignore list, if its files are allowed and there is one. -/
  ignored : Option IgnoreList

namespace Project

/-- Why a project cannot be loaded or checked. -/
inductive Error where
  | unreadable (error : AccessError)
  | settings (error : Settings.Error)
  | missingRules (path : String)
  | capture (error : CaptureError)
  | rules (error : Rules.Error)
  | ignoreList (error : IgnoreList.LoadError)
  /-- The ignore list was asked about an absolute path. -/
  | rooted (path : RootedPath)

/-- The wording of an error. -/
def Error.message : Error → String
  | .unreadable reason => "Configuration error: I/O error: " ++ reason.message
  | .settings reason => "Configuration error: " ++ reason.message
  | .missingRules path => "Configuration error: rules file does not exist: " ++ path
  | .capture reason => "File walker error: " ++ reason.message
  | .rules reason => reason.message
  | .ignoreList reason => "Configuration error: Invalid .gitignore: " ++ reason.message
  | .rooted reason => "path is expected to be under the root: " ++ reason.path

/-- Whether an error is a malformed line of the rules file. -/
def Error.isMalformedLine : Error → Bool
  | .rules (.line _ _) => true
  | _ => false

/-- The name of a rules file in diagnostics: its path without a leading `.` and the segments that
add nothing at its ends. -/
def sourceName (path : String) : String :=
  let isVacant (segment : List Char) : Bool := segment = [] || segment = ['.']
  match Text.segments path.toList with
  | ['.'] :: segments =>
    .ofList (Text.join '/' (((segments.dropWhile isVacant).reverse.dropWhile isVacant).reverse))
  | _ => path

/-- The text of the rules file. -/
def readRules (system : FileSystem) (path : String) : Except Error String :=
  match system.readText path with
  | .ok text => .ok text
  | .error .notFound => .error (.missingRules path)
  | .error error => .error (.unreadable error)

/-- Load a project. -/
def load (system : FileSystem) (target : Command.Target) : Except Error Project := do
  let settings ← (Settings.find system target.directory).mapError fun
    | .inl error => .unreadable error
    | .inr error => .settings error
  let rulesPath := target.config.getD (settings.rulesPath target.directory)
  let text ← readRules system rulesPath
  let snapshot ← (system.capture target.directory settings.project.exclude).mapError .capture
  let rules ← (Rules.compile (sourceName rulesPath) text snapshot.matcher).outcome.mapError .rules
  let ignored ←
    if target.gitignore || settings.project.gitignore then
      (IgnoreList.load system target.directory).mapError .ignoreList
    else .ok none
  return { settings, rulesPath, snapshot, rules, ignored }

/-- Check the tree of a project; files on its ignore list are allowed. -/
def check (project : Project) : Except Error Report :=
  match project.ignored with
  | none => (project.snapshot.check project.rules).mapError .rules
  | some ignored =>
    (project.snapshot.checkIgnoring project.rules ignored).mapError fun
      | .rules error => .rules error
      | .rooted path => .rooted path

/-- How results are written: as the command line says, or else the settings. -/
def format (project : Project) (target : Command.Target) : OutputFormat :=
  target.format.getD project.settings.output.format

/-- Whether colour is written: as the command line says, or else the settings. -/
def color (project : Project) (color : Option Terminal.ColorChoice) : Terminal.ColorChoice :=
  color.getD project.settings.output.color

end Project

end TreeLayout
