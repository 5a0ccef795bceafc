import TreeLayout.Settings.Basic

/-!
# The command line

The arguments of a call and the invocation that they ask for. A call has options of its own, then
the name of a command, then the command's options. An option's value stands after an equals sign,
next to a short option, or in the following argument; in the last case the option is only settled
when the next option is met or the arguments end, so that a later mistake can be found before an
earlier one.
-/

namespace TreeLayout.Command

open Terminal (ColorChoice)

/-- Why a call asks for no invocation. -/
inductive Usage where
  | help
  | version
  | noArguments
  | missingCommand
  | unknownCommand
  | unknownArgument
  | invalidValue
  | repeated
  | unwantedValue
deriving DecidableEq, Repr

/-- The exit code of a call without an invocation: help and version are not errors. -/
def Usage.code : Usage → UInt32
  | help | version => 0
  | _ => 2

/-- What a command does. -/
inductive Action where
  | check
  | rules
deriving DecidableEq, Repr

/-- The action with a name. -/
def Action.ofName? : String → Option Action
  | "check" => some .check
  | "rules" => some .rules
  | _ => none

/-- The project and the output that a command is asked for. -/
structure Target where
  directory : String
  /-- The rules file, if it is not to come from the settings. -/
  config : Option String
  format : Option OutputFormat
  /-- Whether files on the project's ignore list are allowed. -/
  gitignore : Bool
deriving DecidableEq, Repr

/-- What a call asks for. -/
structure Invocation where
  action : Action
  target : Target
  color : Option ColorChoice
deriving DecidableEq, Repr

/-- The options that take a value. -/
inductive ValueOption where
  | color
  | directory
  | config
  | format
deriving DecidableEq, Repr

/-- The options that take none. -/
inductive Flag where
  | verbose
  | gitignore
  | help
  | version
deriving DecidableEq, Repr

/-- Where options stand: before the name of the command, or after it. -/
inductive Level where
  | call
  | command
deriving DecidableEq, Repr

namespace Level

/-- The option with a long name. -/
def long? (level : Level) (name : List Char) : Option (ValueOption ⊕ Flag) :=
  match level, String.ofList name with
  | _, "color" => some (.inl .color)
  | _, "verbose" => some (.inr .verbose)
  | _, "help" => some (.inr .help)
  | .call, "version" => some (.inr .version)
  | .command, "directory" => some (.inl .directory)
  | .command, "config" => some (.inl .config)
  | .command, "format" => some (.inl .format)
  | .command, "gitignore" => some (.inr .gitignore)
  | _, _ => none

/-- The option with a short name. -/
def short? : Level → Char → Option (ValueOption ⊕ Flag)
  | _, 'v' => some (.inr .verbose)
  | _, 'h' => some (.inr .help)
  | .call, 'V' => some (.inr .version)
  | .command, 'd' => some (.inl .directory)
  | .command, 'c' => some (.inl .config)
  | .command, 'f' => some (.inl .format)
  | _, _ => none

end Level

/-- The output format with a name. -/
def formatNamed? : String → Option OutputFormat
  | "human" => some .human
  | "jsonl" => some .jsonl
  | _ => none

/-- The choice of colour with a name. -/
def colorNamed? : String → Option ColorChoice
  | "auto" => some .auto
  | "always" => some .always
  | "never" => some .never
  | _ => none

/-- Whether a text is a value of an option. -/
def ValueOption.accepts (option : ValueOption) (value : String) : Bool :=
  match option with
  | color => (colorNamed? value).isSome
  | format => (formatNamed? value).isSome
  | directory | config => value ≠ ""

/-- The options that have been read at one level. -/
structure Options where
  values : List (ValueOption × String) := []
  flags : List Flag := []
  /-- An option that is not settled yet, and its value once it has been met. -/
  pending : Option (ValueOption × Option String) := none

namespace Options

/-- Whether the next argument is to be the value of an option. -/
def awaitsValue (options : Options) : Bool := options.pending.any fun (_, value) => value.isNone

/-- Add an option with its value. -/
def add (options : Options) (option : ValueOption) (value : String) : Except Usage Options :=
  if (options.values.lookup option).isSome then .error .repeated
  else if option.accepts value then .ok { options with values := (option, value) :: options.values }
  else .error .invalidValue

/-- Settle the pending option, if there is one. -/
def settle (options : Options) : Except Usage Options :=
  match options.pending with
  | none => .ok options
  | some (_, none) => .error .invalidValue
  | some (option, some value) => { options with pending := none }.add option value

/-- Read a flag. -/
def readFlag (options : Options) (flag : Flag) : Except Usage Options := do
  let options ← options.settle
  match flag with
  | .help => .error .help
  | .version => .error .version
  | flag =>
    if flag ∈ options.flags then .error .repeated
    else .ok { options with flags := flag :: options.flags }

/-- Read an option that takes a value, perhaps with the value. -/
def readValueOption (options : Options) (option : ValueOption) (value : Option (List Char)) :
    Except Usage Options := do
  let options ← options.settle
  match value with
  | none => return { options with pending := some (option, none) }
  | some value => options.add option (.ofList value)

/-- Read a long option, without its hyphens. -/
def readLong (options : Options) (level : Level) (text : List Char) : Except Usage Options :=
  let name := text.takeWhile (· ≠ '=')
  let value := match text.dropWhile (· ≠ '=') with
    | [] => none
    | _ :: value => some value
  match level.long? name with
  | none => .error .unknownArgument
  | some (.inl option) => options.readValueOption option value
  | some (.inr flag) => if value.isSome then .error .unwantedValue else options.readFlag flag

/-- Read short options that share a hyphen; one that takes a value takes the rest as its value. -/
def readShort (options : Options) (level : Level) : List Char → Except Usage Options
  | [] => .ok options
  | c :: rest =>
    match level.short? c with
    | none => .error .unknownArgument
    | some (.inr flag) => do (← options.readFlag flag).readShort level rest
    | some (.inl option) =>
      let value := match rest with
        | [] => none
        | '=' :: value => some value
        | value => some value
      options.readValueOption option value

end Options

/-- What an argument looks like. -/
inductive Shape where
  /-- `--` alone: no options follow. -/
  | escape
  | long (text : List Char)
  | short (text : List Char)
  | word

/-- The shape of an argument. -/
def Shape.of (argument : String) : Shape :=
  match argument.toList with
  | ['-', '-'] => .escape
  | '-' :: '-' :: text => .long text
  | '-' :: c :: text => .short (c :: text)
  | _ => .word

/-- What a request for help on the given commands comes to. -/
def helpOn : List String → Usage
  | [] => .help
  | [name] => if (Action.ofName? name).isSome || name = "help" then .help else .unknownCommand
  | _ => .unknownCommand

/-- What an argument that is neither an option nor a value comes to. -/
def strayArgument (level : Level) (escaped : Bool) (argument : String) : Usage :=
  match level with
  | .command => .unknownArgument
  | .call =>
    if escaped && ((Action.ofName? argument).isSome || argument = "help") then .unknownArgument
    else .unknownCommand

/-- Read the options of a level. Before the command, its name ends them and the arguments after it
are left. -/
def readOptions (level : Level) (options : Options) :
    List String → Except Usage (Options × Option (Action × List String))
  | [] => .ok (options, none)
  | argument :: rest =>
    let isName := level = .call && !options.awaitsValue
    match if isName then Action.ofName? argument else none with
    | some action => .ok (options, some (action, rest))
    | none =>
      if isName && argument = "help" then .error (helpOn rest)
      else match Shape.of argument with
        | .escape =>
          match rest with
          | [] => .ok (options, none)
          | argument :: _ => .error (strayArgument level true argument)
        | .long text => do readOptions level (← options.readLong level text) rest
        | .short text => do readOptions level (← options.readShort level text) rest
        | .word =>
          match options.pending with
          | some (option, none) =>
            readOptions level { options with pending := some (option, some argument) } rest
          | _ => .error (strayArgument level false argument)

/-- The choice of colour among some options. -/
def Options.color? (options : Options) : Option ColorChoice :=
  options.values.lookup .color >>= colorNamed?

/-- What a call with the given arguments asks for. A choice of colour after the command's name has
precedence over one before it. -/
def parse (arguments : List String) : Except Usage Invocation := do
  match ← readOptions .call {} arguments with
  | (options, none) =>
    let options ← options.settle
    let isBare := options.values.isEmpty && options.flags.isEmpty
    throw (if isBare then .noArguments else .missingCommand)
  | (outer, some (action, rest)) =>
    let inner ← (← readOptions .command {} rest).1.settle
    let outer ← outer.settle
    let target : Target := {
      directory := (inner.values.lookup .directory).getD "."
      config := inner.values.lookup .config
      format := inner.values.lookup .format >>= formatNamed?
      gitignore := .gitignore ∈ inner.flags }
    return { action, target, color := inner.color? <|> outer.color? }

end TreeLayout.Command
