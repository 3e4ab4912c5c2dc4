import StagedAnalysis.Session
/-!
What a command line asks for. A command comes first and its options and its one input behind it;
only the request for more log output may stand anywhere. A `--` ends the options, and everything
that does not follow these rules is refused.
-/
namespace StagedAnalysis.CommandLine

inductive Format where
  | text
  | json
  deriving DecidableEq

def Format.ofName? : String → Option Format
  | "text" => some .text
  | "json" => some .json
  | _ => none

inductive Input where
  | standardInput
  | file (path : String)
  deriving DecidableEq

/-- A lone `-` is the standard input, however many separators and dots come behind it. -/
def Input.ofPath (path : String) : Input :=
  match path.splitOn "/" with
  | "-" :: others =>
    if others.all fun part => part == "" || part == "." then .standardInput else .file path
  | _ => .file path

inductive Request where
  | analyze (target : Stage) (options : Options) (format : Format) (input : Input)
  | listTokens (format : Format) (input : Input)
  | describeVersion
  | versionNumber
  | help
  deriving DecidableEq

def Request.input? : Request → Option Input
  | analyze _ _ _ input | listTokens _ input => some input
  | describeVersion | versionNumber | help => none

inductive Command where
  | check
  | tokens
  | lex
  | parse
  | version
  deriving DecidableEq

namespace Command

def ofName? : String → Option Command
  | "check" => some check
  | "tokens" => some tokens
  | "lex" => some lex
  | "syntax" => some parse
  | "version" => some version
  | _ => none

def takesInput (command : Command) : Bool :=
  command != version

def takesStrict (command : Command) : Bool :=
  command == check

end Command

structure Settings where
  strict : Bool := false
  format? : Option Format := none
  path? : Option String := none

/-- What a group of one-letter options asks for. Only the letter for more log output has no answer
of its own. -/
inductive Letters where
  | log
  | version
  | help
  | unknown
  deriving DecidableEq

def Letters.read : List Char → Letters
  | [] => log
  | letter :: letters =>
    if letter = 'v' then read letters
    else if letter = 'V' then version
    else if letter = 'h' then help
    else unknown

def splitLongOption (text : List Char) : String × Option String :=
  let name := String.ofList (text.takeWhile (· ≠ '='))
  match text.dropWhile (· ≠ '=') with
  | [] => (name, none)
  | _ :: value => (name, some (String.ofList value))

namespace Settings

def withPath? (settings : Settings) (command : Command) (path : String) : Option Settings :=
  if command.takesInput && settings.path?.isNone && !path.isEmpty then
    some { settings with path? := some path }
  else none

def withStrict? (settings : Settings) (command : Command) : Option Settings :=
  if command.takesStrict && !settings.strict then some { settings with strict := true } else none

def withFormat? (settings : Settings) (command : Command) (name : String) : Option Settings :=
  if command.takesInput && settings.format?.isNone then
    (Format.ofName? name).map fun format => { settings with format? := some format }
  else none

def request? (settings : Settings) (command : Command) : Option Request :=
  let format := settings.format?.getD .text
  let input? := settings.path?.map Input.ofPath
  match command with
  | .check => input?.map (.analyze .semantic { strict := settings.strict } format)
  | .lex => input?.map (.analyze .lexical {} format)
  | .parse => input?.map (.analyze .syntactic {} format)
  | .tokens => input?.map (.listTokens format)
  | .version => some .describeVersion

end Settings

/-- Reads the arguments behind a `--`, all of which are inputs. -/
def readInputs (command : Command) (settings : Settings) : List String → Option Request
  | [] => settings.request? command
  | path :: others => (settings.withPath? command path).bind (readInputs command · others)

def readSettings (command : Command) (settings : Settings) : List String → Option Request
  | [] => settings.request? command
  | argument :: others =>
    match argument.toList with
    | ['-', '-'] => readInputs command settings others
    | '-' :: '-' :: long =>
      match splitLongOption long with
      | ("verbose", none) => readSettings command settings others
      | ("help", none) => some .help
      | ("strict", none) =>
        (settings.withStrict? command).bind (readSettings command · others)
      | ("format", some name) =>
        (settings.withFormat? command name).bind (readSettings command · others)
      | ("format", none) =>
        match others with
        | [] => none
        | name :: others =>
          (settings.withFormat? command name).bind (readSettings command · others)
      | _ => none
    | '-' :: letter :: letters =>
      match Letters.read (letter :: letters) with
      | .log => readSettings command settings others
      | .help => some .help
      | .version | .unknown => none
    | _ => (settings.withPath? command argument).bind (readSettings command · others)

/-- The request for help, which may be about one command, help included. No command has commands of
its own, so a second name is refused, and an option is taken for a name. -/
def readHelpTopic : List String → Option Request
  | [] => some .help
  | [name] => if name = "help" ∨ (Command.ofName? name).isSome then some .help else none
  | _ => none

def Request.ofArguments? : List String → Option Request
  | [] => none
  | argument :: others =>
    match argument.toList with
    | '-' :: '-' :: long =>
      match splitLongOption long with
      | ("verbose", none) => ofArguments? others
      | ("version", none) => some .versionNumber
      | ("help", none) => some .help
      | _ => none
    | '-' :: letter :: letters =>
      match Letters.read (letter :: letters) with
      | .log => ofArguments? others
      | .version => some .versionNumber
      | .help => some .help
      | .unknown => none
    | _ =>
      if argument = "help" then readHelpTopic others
      else (Command.ofName? argument).bind (readSettings · {} others)

end StagedAnalysis.CommandLine
