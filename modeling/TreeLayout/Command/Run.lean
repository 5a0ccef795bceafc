import TreeLayout.Command.Project
import TreeLayout.Report.Human
import TreeLayout.Report.Records

/-!
# Running a command

What a command writes and the code that it ends with: 0 if all is well, 1 if a path must not exist,
3 if a line of the rules file is malformed, and 2 for every other error. An error goes to the error
output, and nothing is written to the standard output then.
-/

namespace TreeLayout.Command

/-- What a command has written, and its exit code. -/
structure Outcome where
  code : UInt32
  stdout : String
  stderr : String
deriving DecidableEq, Repr

/-- The exit code of an error. -/
def errorCode (error : Project.Error) : UInt32 := if error.isMalformedLine then 3 else 2

/-- The outcome of an error, after what has been written to the error output before. -/
def failed (written : String) (error : Project.Error) : Outcome :=
  ⟨errorCode error, "", written ++ "Error: " ++ error.message ++ "\n"⟩

/-- What a check announces to people. -/
def announcement (project : Project) : String :=
  "Checking " ++ toString project.snapshot.files.length ++ " files with " ++
    toString project.rules.length ++ " patterns...\n"

/-- What a check writes for people about a report. -/
def humanReport (project : Project) (color : Option Terminal.ColorChoice) (report : Report) :
    Outcome :=
  if report.passed then ⟨0, "", announcement project ++ "repository looks good\n"⟩
  else
    ⟨1, Terminal.write (project.color color) report.pieces,
      announcement project ++ "\nCheck FAILED: " ++ toString report.violations.length ++
        " path(s) violate " ++ project.rulesPath ++ "\n"⟩

/-- What a check writes for programs about a report. -/
def recordsReport (report : Report) : Outcome :=
  ⟨if report.passed then 0 else 1, Json.writeLines report.records, ""⟩

/-- Check a project. -/
def runCheck (system : FileSystem) (target : Target) (color : Option Terminal.ColorChoice) : Outcome :=
  match Project.load system target with
  | .error error => failed "" error
  | .ok project =>
    match project.format target, project.check with
    | .human, .error error => failed (announcement project) error
    | .human, .ok report => humanReport project color report
    | .jsonl, .error error => failed "" error
    | .jsonl, .ok report => recordsReport report

/-- What a listing adds for people about the ignore list. -/
def ignoreNote (project : Project) : String :=
  match project.ignored with
  | none => ""
  | some ignored =>
    "plus " ++ toString ignored.lines.length ++ " line(s) from .gitignore allowing ignored files\n"

/-- List the rules in force. -/
def runRules (system : FileSystem) (target : Target) (color : Option Terminal.ColorChoice) : Outcome :=
  match Project.load system target with
  | .error error => failed "" error
  | .ok project =>
    match project.format target with
    | .jsonl => ⟨0, Json.writeLines (Rule.records project.rules), ""⟩
    | .human =>
      if project.rules.isEmpty then
        ⟨0, "", "No patterns compiled from " ++ project.rulesPath ++ "\n"⟩
      else
        ⟨0, Terminal.write (project.color color) (Rule.listing project.rules), ignoreNote project⟩

/-- How the program is called. -/
def usageText : String := String.intercalate "\n" [
  "Declarative file layout enforcement for repositories",
  "",
  "Usage: treeguard [OPTIONS] <COMMAND>",
  "",
  "Commands:",
  "  check  Check that every file in the project is allowed by the rules",
  "  rules  Print the rules in force, for debugging rules files",
  "  help   Print this message",
  "",
  "Options:",
  "      --color <WHEN>     Color the output: auto, always or never",
  "  -v, --verbose          Log progress",
  "  -h, --help             Print this message",
  "  -V, --version          Print the version",
  "",
  "Options of the commands:",
  "  -d, --directory <DIR>  Project directory [default: .]",
  "  -c, --config <FILE>    Rules file",
  "  -f, --format <FORMAT>  Output format: human or jsonl",
  "      --gitignore        Allow files ignored by the root .gitignore",
  ""]

/-- The wording of a mistake in a call; help and version are none. -/
def Usage.message : Usage → String
  | .help | .version => ""
  | .noArguments | .missingCommand => "a command is required"
  | .unknownCommand => "unrecognized command"
  | .unknownArgument => "unexpected argument"
  | .invalidValue => "an option has no valid value"
  | .repeated => "an option cannot be used multiple times"
  | .unwantedValue => "an option takes no value"

/-- The outcome of a call without an invocation. -/
def Usage.outcome (usage : Usage) : Outcome :=
  match usage with
  | .help => ⟨usage.code, usageText, ""⟩
  | .version => ⟨usage.code, "treeguard 0.1.0\n", ""⟩
  | _ => ⟨usage.code, "", "error: " ++ usage.message ++ "\n\n" ++ usageText⟩

/-- Run what a call asks for. -/
def run (system : FileSystem) (invocation : Invocation) : Outcome :=
  match invocation.action with
  | .check => runCheck system invocation.target invocation.color
  | .rules => runRules system invocation.target invocation.color

end TreeLayout.Command
