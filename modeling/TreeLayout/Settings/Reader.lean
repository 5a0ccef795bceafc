import TreeLayout.Settings.Basic
import TreeLayout.Toml.Parser
import TreeLayout.Text.Quoted

/-!
# Reading settings

Settings are a TOML document. The entries of a table are read in the order of the document, and the
first that does not fit is the error; unknown entries mean nothing; a missing entry is noticed last.
An array may stand for a table, its items for the entries by their place.
-/

namespace TreeLayout.Settings

open Toml (Value)

/-- Why a document does not fit settings. -/
inductive Mismatch where
  | missingField (name : String)
  | invalidType (found expected : String)
  | missingItem (expected : String)
  | unknownVariant (name : String) (choices : List String)
  | notAChoice
  | choiceCount (several : Bool)
  | choiceContent (expected : String)
deriving DecidableEq, Repr

/-- Choices as a sentence names them. -/
def listChoices (choices : List String) : String :=
  match choices.map fun choice => "`" ++ choice ++ "`" with
  | [first, second] => first ++ " or " ++ second
  | choices => "one of " ++ String.intercalate ", " choices

/-- The wording of a mismatch. -/
def Mismatch.message : Mismatch → String
  | missingField name => "missing field `" ++ name ++ "`"
  | invalidType found expected => "invalid type: " ++ found ++ ", expected " ++ expected
  | missingItem expected => "invalid length 0, expected " ++ expected
  | unknownVariant name choices =>
    "unknown variant `" ++ name ++ "`, expected " ++ listChoices choices
  | notAChoice => "wanted string or table"
  | choiceCount several =>
    "wanted exactly 1 element, " ++ if several then "more than 1 element" else "found 0 elements"
  | choiceContent expected => "expected " ++ expected

/-- A value as a message about its type names it. -/
def describe : Value → String
  | .string text => "string " ++ Text.quoted text
  | .integer n => "integer `" ++ toString n ++ "`"
  | .float x => "floating point `" ++ x.text ++ "`"
  | .boolean b => "boolean `" ++ toString b ++ "`"
  | .date => "map"
  | .array _ => "sequence"
  | .table _ _ => "map"
  | .tables _ => "sequence"

/-- The items of an array of any kind. -/
def items? : Value → Option (List Value)
  | .array items => some items
  | .tables elements => some (elements.map (.table .header))
  | _ => none

/-- The entries of a table; a date counts as one whose entries are all unknown. -/
def entries? : Value → Option Toml.Entries
  | .table _ entries => some entries
  | .date => some []
  | _ => none

/-- Read a text. -/
def readText (expected : String) : Value → Except Mismatch String
  | .string text => .ok text
  | value => .error (.invalidType (describe value) expected)

/-- Read a truth value. -/
def readFlag : Value → Except Mismatch Bool
  | .boolean b => .ok b
  | value => .error (.invalidType (describe value) "a boolean")

/-- Read an array of texts. -/
def readTexts (value : Value) : Except Mismatch (List String) :=
  match items? value with
  | some items => items.mapM (readText "a string")
  | none => .error (.invalidType (describe value) "a sequence")

/-- Require that a table that holds a choice as its key says nothing more. -/
def readNothing : Value → Except Mismatch Unit
  | .table _ [] | .array [] | .tables [] => .ok ()
  | .table _ _ | .array _ => .error (.choiceContent "empty table")
  | .tables _ => .error (.choiceContent "empty array")
  | .string _ => .error (.choiceContent "table, found string")
  | .integer _ => .error (.choiceContent "table, found integer")
  | .float _ => .error (.choiceContent "table, found float")
  | .boolean _ => .error (.choiceContent "table, found boolean")
  | .date => .error (.choiceContent "table, found datetime")

/-- Read one of several names: as a text, or as the only key of a table. -/
def readChoice {α : Type} (choices : List (String × α)) (value : Value) : Except Mismatch α := do
  let choose (name : String) : Except Mismatch α :=
    match choices.lookup name with
    | some choice => .ok choice
    | none => .error (.unknownVariant name (choices.map Prod.fst))
  match value with
  | .string name => choose name
  | .table _ [(name, content)] =>
    let choice ← choose name
    readNothing content
    return choice
  | .table _ entries => throw (.choiceCount !entries.isEmpty)
  | _ => throw .notAChoice

/-- Read an output format. -/
def readFormat : Value → Except Mismatch OutputFormat :=
  readChoice [("human", .human), ("jsonl", .jsonl)]

/-- Read a choice of colour. -/
def readColor : Value → Except Mismatch Terminal.ColorChoice :=
  readChoice [("auto", .auto), ("always", .always), ("never", .never)]

/-- Project settings of which some entries have been read. -/
structure ProjectDraft where
  version : Option String := none
  settings : ProjectSettings := Settings.default.project

/-- Read one entry of the project settings. -/
def ProjectDraft.readEntry (draft : ProjectDraft) (entry : String × Value) :
    Except Mismatch ProjectDraft := do
  let settings := draft.settings
  match entry.1 with
  | "version" => return { draft with version := some (← readText "a string" entry.2) }
  | "rules" =>
    let rules ← readText "path string" entry.2
    return { draft with settings := { settings with rules } }
  | "gitignore" =>
    let gitignore ← readFlag entry.2
    return { draft with settings := { settings with gitignore } }
  | "exclude" =>
    let exclude ← readTexts entry.2
    return { draft with settings := { settings with exclude } }
  | _ => return draft

/-- Read the project settings. -/
def readProject (value : Value) : Except Mismatch ProjectSettings := do
  let expected := "struct GuardMeta"
  let draft ← match items? value, entries? value with
    | some [], _ => throw (.missingItem (expected ++ " with 4 elements"))
    | some items, _ =>
      (["version", "rules", "gitignore", "exclude"].zip items).foldlM ProjectDraft.readEntry {}
    | none, some entries => entries.foldlM ProjectDraft.readEntry {}
    | none, none => throw (.invalidType (describe value) expected)
  match draft.version with
  | some version => return { draft.settings with version }
  | none => throw (.missingField "version")

/-- Read one entry of the output settings. -/
def readOutputEntry (settings : OutputSettings) (entry : String × Value) :
    Except Mismatch OutputSettings := do
  match entry.1 with
  | "format" => return { settings with format := ← readFormat entry.2 }
  | "color" => return { settings with color := ← readColor entry.2 }
  | _ => return settings

/-- Read the output settings. -/
def readOutput (value : Value) : Except Mismatch OutputSettings :=
  match items? value, entries? value with
  | some items, _ => (["format", "color"].zip items).foldlM readOutputEntry .default
  | none, some entries => entries.foldlM readOutputEntry .default
  | none, none => .error (.invalidType (describe value) "struct OutputConfig")

/-- Read the settings from the root table of a document. -/
def ofEntries (entries : Toml.Entries) : Except Mismatch Settings := do
  let readEntry (draft : Option ProjectSettings × OutputSettings) (entry : String × Value) :
      Except Mismatch (Option ProjectSettings × OutputSettings) := do
    match entry.1 with
    | "treeguard" => return (some (← readProject entry.2), draft.2)
    | "output" => return (draft.1, ← readOutput entry.2)
    | _ => return draft
  match ← entries.foldlM readEntry (none, .default) with
  | (some project, output) => return ⟨project, output⟩
  | (none, _) => throw (.missingField "treeguard")

/-- Why a text has no settings. -/
inductive Error where
  /-- The text is no TOML document. -/
  | malformed
  | mismatch (reason : Mismatch)
  | refused (reason : Refusal)
deriving DecidableEq, Repr

/-- The wording of an error. The place of a mistake in the text is not told. -/
def Error.message : Error → String
  | malformed => "Invalid configuration syntax: TOML parse error"
  | .mismatch reason => "Invalid configuration syntax: " ++ reason.message
  | .refused reason => "Invalid configuration: " ++ reason.message

/-- The settings that a text describes. -/
def parse (text : String) : Except Error Settings := do
  match Toml.parse text with
  | none => throw .malformed
  | some entries => ((← (ofEntries entries).mapError .mismatch).validate).mapError .refused

end TreeLayout.Settings
