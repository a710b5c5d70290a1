import ZigLint.Text.Blank

namespace ZigLint

/-!
# Command-line arguments

Arguments are read in two stages. `ArgumentWord.read` splits them into flags,
options with values and plain words, by what the command knows; the first
argument that does not fit ends the reading. `Invocation.parse` then makes a
request of the words.
-/

/-- A flag or an option with a value. -/
structure ArgumentSpec where
  /-- The name after two dashes. -/
  long : String
  /-- The letter after one dash. -/
  short? : Option Char := none
  takesValue : Bool := false
  isRepeatable : Bool := false
  deriving Repr, DecidableEq

/-- A piece of the command line. -/
inductive ArgumentWord where
  | flag (name : String)
  | option (name value : String)
  | plain (text : String)
  /-- An argument that no spec allows. -/
  | unexpected
  deriving Repr, DecidableEq

namespace ArgumentWord

/-- The argument reads as a flag or option. -/
def isDashed (argument : String) : Bool :=
  match argument.toList with
  | '-' :: _ :: _ => true
  | _ => false

/-- The value of an option: what is attached to it, or the next argument. -/
def takeValue (name : String) (attached? : Option String) (arguments : List String) :
    ArgumentWord × List String :=
  match attached?, arguments with
  | some value, _ => (.option name value, arguments)
  | none, value :: rest =>
      if isDashed value then (.unexpected, []) else (.option name value, rest)
  | none, [] => (.unexpected, [])

/-- The word of an argument with two dashes, and the arguments behind it. -/
def readLong (specs : List ArgumentSpec) (body : List Char) (arguments : List String) :
    ArgumentWord × List String :=
  let name := String.ofList (body.takeWhile (· != '='))
  let attached? :=
    match body.dropWhile (· != '=') with
    | _ :: value => some (String.ofList value)
    | [] => none
  match specs.find? fun spec => spec.long == name with
  | none => (.unexpected, [])
  | some spec =>
      if spec.takesValue then takeValue name attached? arguments
      else if attached?.isSome then (.unexpected, [])
      else (.flag name, arguments)

/-- The words of letters after one dash, and the arguments behind them. -/
def readShort (specs : List ArgumentSpec) (arguments : List String) :
    (letters : List Char) → List ArgumentWord × List String
  | [] => ([], arguments)
  | letter :: rest =>
      match specs.find? fun spec => spec.short? == some letter with
      | none => ([.unexpected], [])
      | some spec =>
          if spec.takesValue then
            let attached? :=
              match rest with
              | [] => none
              | '=' :: value => some (String.ofList value)
              | value => some (String.ofList value)
            let (word, arguments) := takeValue spec.long attached? arguments
            ([word], arguments)
          else
            let (words, arguments) := readShort specs arguments rest
            (.flag spec.long :: words, arguments)

/-- The words of the next argument, and the arguments behind it. -/
def readNext (specs : List ArgumentSpec) (argument : String) (arguments : List String) :
    List ArgumentWord × List String :=
  match argument.toList with
  | ['-', '-'] => (arguments.map .plain, [])
  | '-' :: '-' :: body =>
      let (word, arguments) := readLong specs body arguments
      ([word], arguments)
  | '-' :: letter :: letters => readShort specs arguments (letter :: letters)
  | _ => ([.plain argument], arguments)

/-- The words of all arguments; every round reads at least one of at most `rounds` arguments. -/
def readRounds (specs : List ArgumentSpec) : (rounds : Nat) → List String → List ArgumentWord
  | 0, _ => []
  | _, [] => []
  | rounds + 1, argument :: arguments =>
      let (words, arguments) := readNext specs argument arguments
      words ++ readRounds specs rounds arguments

/-- The words of all arguments. -/
def read (specs : List ArgumentSpec) (arguments : List String) : List ArgumentWord :=
  readRounds specs arguments.length arguments

/--
The words up to the first plain one, that one and the arguments behind it.

This is how the name of a command is found among the flags in front of it.
-/
def readCommand (specs : List ArgumentSpec) :
    (rounds : Nat) → List String → List ArgumentWord × Option (String × List String)
  | 0, _ => ([], none)
  | _, [] => ([], none)
  | rounds + 1, argument :: arguments =>
      if argument = "--" then
        ([.unexpected], none)
      else if isDashed argument then
        let (words, arguments) := readNext specs argument arguments
        let (more, command) := readCommand specs rounds arguments
        (words ++ more, command)
      else
        ([], some (argument, arguments))

end ArgumentWord

/-- How a report is written. -/
inductive OutputFormat where
  | text
  | json
  | compact
  | pretty
  deriving Repr, DecidableEq

namespace OutputFormat

/-- Every format. -/
def all : List OutputFormat :=
  [.text, .json, .compact, .pretty]

/-- The name of the format. -/
def name : OutputFormat → String
  | .text => "text"
  | .json => "json"
  | .compact => "compact"
  | .pretty => "pretty"

/-- The format with the given name. -/
def ofName? (name : String) : Option OutputFormat :=
  all.find? fun format => format.name == name

end OutputFormat

/-- What to check and how. -/
structure CheckRequest where
  path : String := "."
  format : OutputFormat := .text
  /-- Ids of the rules to run, separated by commas. -/
  rules? : Option String := none
  exclude : List String := []
  /-- Apply fixes before reporting. -/
  fix : Bool := false
  deriving Repr, DecidableEq

namespace CheckRequest

/-- The ids of the rules to run. -/
def ruleIds? (request : CheckRequest) : Option (List String) :=
  request.rules?.map fun rules =>
    ((rules.toList.splitOn ',').map fun id => String.ofList (Text.trim id)).filter (· ≠ "")

end CheckRequest

/-- The commands of the program. -/
inductive Command where
  | check (request : CheckRequest)
  | listRules
  /-- Write a configuration file, over an existing one if `force`. -/
  | init (force : Bool)
  deriving Repr, DecidableEq

/-- A command together with the options that all commands share. -/
structure Invocation where
  /-- The configuration file to use. -/
  config? : Option String
  command : Command
  deriving Repr, DecidableEq

/-- What the command line asks for. -/
inductive Request where
  | run (invocation : Invocation)
  | help
  | version
  /-- The command line makes no sense. -/
  | misuse
  deriving Repr, DecidableEq

namespace Invocation

/-- Options of every command. -/
def sharedSpecs : List ArgumentSpec :=
  [{ long := "verbose", short? := some 'v' },
    { long := "config", short? := some 'c', takesValue := true },
    { long := "help", short? := some 'h' }]

/-- Options in front of the command. -/
def topSpecs : List ArgumentSpec :=
  { long := "version", short? := some 'V' } :: sharedSpecs

/-- Options of the check. -/
def checkSpecs : List ArgumentSpec :=
  [{ long := "format", short? := some 'f', takesValue := true },
    { long := "rules", takesValue := true },
    { long := "exclude", short? := some 'e', takesValue := true, isRepeatable := true },
    { long := "fix" }] ++ sharedSpecs

/-- Options of the command that writes a configuration. -/
def initSpecs : List ArgumentSpec :=
  { long := "force" } :: sharedSpecs

/-- What has been read of a command line. -/
structure Progress where
  /-- Names of the options that may not be given again. -/
  seen : List String := []
  config? : Option String := none
  request : CheckRequest := {}
  hasPath : Bool := false
  force : Bool := false

/-- Note that an option has been given; one that is not repeatable may be given once. -/
def note (specs : List ArgumentSpec) (name : String) (progress : Progress) :
    Except Request Progress :=
  if progress.seen.contains name then
    .error .misuse
  else
    let isRepeatable := specs.any fun spec => spec.long == name && spec.isRepeatable
    .ok { progress with seen := if isRepeatable then progress.seen else name :: progress.seen }

/-- Take in a flag. -/
def takeFlag (name : String) (progress : Progress) : Except Request Progress :=
  match name with
  | "help" => .error .help
  | "version" => .error .version
  | "fix" => .ok { progress with request := { progress.request with fix := true } }
  | "force" => .ok { progress with force := true }
  | _ => .ok progress

/-- Take in an option with its value. -/
def takeOption (name value : String) (progress : Progress) : Except Request Progress :=
  match name with
  | "config" => if value = "" then .error .misuse else .ok { progress with config? := some value }
  | "format" =>
      match OutputFormat.ofName? value with
      | some format => .ok { progress with request := { progress.request with format } }
      | none => .error .misuse
  | "rules" => .ok { progress with request := { progress.request with rules? := some value } }
  | "exclude" =>
      let exclude := progress.request.exclude ++ [value]
      .ok { progress with request := { progress.request with exclude } }
  | _ => .ok progress

/-- Take in a plain word, of which only a command with a path has one. -/
def takePlain (acceptsPath : Bool) (text : String) (progress : Progress) :
    Except Request Progress :=
  if acceptsPath && !progress.hasPath && text != "" then
    .ok { progress with hasPath := true, request := { progress.request with path := text } }
  else
    .error .misuse

/-- Take in one word. -/
def takeWord (specs : List ArgumentSpec) (acceptsPath : Bool) (progress : Progress) :
    ArgumentWord → Except Request Progress
  | .flag name => do takeFlag name (← note specs name progress)
  | .option name value => do takeOption name value (← note specs name progress)
  | .plain text => takePlain acceptsPath text progress
  | .unexpected => .error .misuse

/-- Read the arguments of one command. -/
def readArguments (specs : List ArgumentSpec) (acceptsPath : Bool) (arguments : List String) :
    Except Request Progress :=
  (ArgumentWord.read specs arguments).foldlM (takeWord specs acceptsPath) {}

/-- Read the arguments of a command and make an invocation of them. -/
def ofCommand
    (specs : List ArgumentSpec)
    (acceptsPath : Bool)
    (command : Progress → Command)
    (arguments : List String)
    (outerConfig? : Option String) :
    Except Request Request := do
  let progress ← readArguments specs acceptsPath arguments
  return .run { config? := progress.config?.or outerConfig?, command := command progress }

/-- What the arguments ask for, or a request that cuts the reading short. -/
def read (environmentConfig? : Option String) (arguments : List String) :
    Except Request Request := do
  let (words, named) := ArgumentWord.readCommand topSpecs arguments.length arguments
  let progress ← words.foldlM (takeWord topSpecs false) {}
  let config? := progress.config?.or environmentConfig?
  match named with
  | some ("check", rest) =>
      ofCommand checkSpecs true (fun progress => .check progress.request) rest config?
  | some ("list-rules", rest) => ofCommand sharedSpecs false (fun _ => .listRules) rest config?
  | some ("init", rest) =>
      ofCommand initSpecs false (fun progress => .init progress.force) rest config?
  | some ("help", []) | some ("help", ["check"]) | some ("help", ["list-rules"])
  | some ("help", ["init"]) | some ("help", ["help"]) => return .help
  | _ => return .misuse

/--
What the arguments ask for.

A configuration file named on the command line goes before the one named by the
environment; one named after the command goes before one named in front of it.
-/
def parse (environmentConfig? : Option String) (arguments : List String) : Request :=
  match read environmentConfig? arguments with
  | .ok request => request
  | .error request => request

end Invocation

end ZigLint
