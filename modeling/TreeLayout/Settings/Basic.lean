import TreeLayout.Terminal.Painted
import TreeLayout.Glob.Basic

/-!
# Settings of a project

What a project's settings file can say, the defaults, and the conditions that settings must meet.
-/

namespace TreeLayout

/-- How results are written. -/
inductive OutputFormat where
  /-- For people. -/
  | human
  /-- As JSON records, one a line. -/
  | jsonl
deriving DecidableEq, Repr

/-- The settings of the check itself. -/
structure ProjectSettings where
  version : String
  /-- The rules file, relative to the project. -/
  rules : Option String
  /-- Whether files on the project's ignore list are allowed. -/
  gitignore : Bool
  /-- Globs of the paths that are left out of the tree. -/
  exclude : List String
deriving DecidableEq, Repr

/-- The settings of the output. -/
structure OutputSettings where
  format : OutputFormat
  color : Terminal.ColorChoice
deriving DecidableEq, Repr

/-- The settings of a project. -/
structure Settings where
  project : ProjectSettings
  output : OutputSettings
deriving DecidableEq, Repr

/-- The only version of settings. -/
def ProjectSettings.currentVersion : String := "1"

namespace OutputSettings

/-- The settings where nothing is said about the output. -/
def default : OutputSettings := ⟨.human, .auto⟩

end OutputSettings

namespace Settings

/-- The settings of a project without a settings file. -/
def default : Settings := ⟨⟨ProjectSettings.currentVersion, none, false, []⟩, .default⟩

/-- The name of the settings file. -/
def fileName : String := "treeguard.toml"

/-- The name of the rules file where the settings name none. -/
def defaultRulesFile : String := ".treeguard"

/-- The path of the rules file of a project in a directory. -/
def rulesPath (settings : Settings) (directory : String) : String :=
  .ofList (Text.joinPath directory.toList (settings.project.rules.getD defaultRulesFile).toList)

/-- Why settings that are well-formed are refused. -/
inductive Refusal where
  | unsupportedVersion (version : String)
  | emptyRulesPath
  | invalidExclude (error : Glob.Error)
deriving DecidableEq, Repr

/-- The wording of a refusal. -/
def Refusal.message : Refusal → String
  | unsupportedVersion version =>
    "Unsupported configuration version '" ++ version ++ "'. Expected '" ++
      ProjectSettings.currentVersion ++ "'"
  | emptyRulesPath => "The rules file path must not be empty"
  | invalidExclude error =>
    "Invalid exclude glob pattern '" ++ error.glob ++ "': " ++ error.message

/-- The settings, if they meet all conditions; the version comes first, the globs last. -/
def validate (settings : Settings) : Except Refusal Settings := do
  let project := settings.project
  if project.version ≠ ProjectSettings.currentVersion then
    throw (.unsupportedVersion project.version)
  if project.rules = some "" then throw .emptyRulesPath
  project.exclude.forM fun glob => do
    let _ ← (Glob.compile glob).mapError .invalidExclude
  return settings

end Settings

end TreeLayout
