import ZigLint.Command.Arguments
import ZigLint.Config.Search
import ZigLint.Report.Json
import ZigLint.Workspace.Analysis

namespace ZigLint

/-!
# Running commands

A command runs on a disk and answers what to print and the exit status: zero,
one if errors remain or something failed, two if the command line makes no
sense.
-/

/-- Where a command runs. -/
structure Surroundings where
  workingDirectory : String
  /-- The directory with the configuration of the user. -/
  userDirectory? : Option String := none
  /-- A configuration file named by the environment. -/
  config? : Option String := none
  deriving Repr, DecidableEq

/-- What a command leaves behind apart from the disk. -/
structure CommandOutcome where
  exitCode : Nat
  output : String := ""
  error? : Option String := none
  deriving Repr, DecidableEq

/-- A command that may fail with a message. -/
abbrev CommandM := ExceptT String (StateM Workspace)

namespace CommandM

/-- Run a computation on the workspace; if it fails, the message is `failing`. -/
def onWorkspace (failing : String) (action : WorkspaceM α) : CommandM α := do
  let (answer, workspace) := action.run.run (← get)
  set workspace
  match answer with
  | .ok value => return value
  | .error _ => throw failing

/-- The value, or the failure that a message describes. -/
def ofExcept (describe : ε → String) : Except ε α → CommandM α
  | .ok value => return value
  | .error error => throw (describe error)

end CommandM

namespace Diagnostic

/-- The diagnostic as a paragraph, for a problem at a place. -/
def paragraph (diagnostic : Diagnostic) (place : String) : String :=
  let help :=
    match diagnostic.help? with
    | some help => s!"  help: {help}\n"
    | none => ""
  s!"{diagnostic.text}\n  at {place}\n{help}\n"

end Diagnostic

namespace AnalysisReport

/-- A paragraph for each problem, then the summary. -/
def pretty (report : AnalysisReport) : String :=
  let problems := report.renderProblems fun path problem =>
    problem.diagnostic.paragraph s!"{path}:{problem.start.line}:{problem.start.column}"
  problems ++ report.summaryLine

/-- The report in a format. -/
def render (report : AnalysisReport) : OutputFormat → String
  | .text => report.text
  | .json => report.json
  | .compact => report.compact
  | .pretty => report.pretty

end AnalysisReport

namespace Command

/-- The rules to run. -/
def selectRules (request : CheckRequest) : CommandM (List Rule) :=
  match request.ruleIds? with
  | none => return Rule.builtin
  | some ids =>
      CommandM.ofExcept (fun id => s!"Unknown rule '{id}' (see `zlinter list-rules`)")
        (Rule.select ids)

/-- The configuration of a check. -/
def loadConfig (surroundings : Surroundings) (config? : Option String) (path : String) :
    CommandM Config := do
  let disk := (← get).disk
  let source :=
    disk.configSource surroundings.workingDirectory path config? surroundings.userDirectory?
  let describe (error : ConfigError) : String :=
    match error with
    | .unreadable path | .malformed path => s!"Failed to load config: {path}"
  CommandM.ofExcept describe (disk.loadConfig surroundings.workingDirectory source)

/-- Check files and answer the report. -/
def runCheck (surroundings : Surroundings) (config? : Option String) (request : CheckRequest) :
    CommandM AnalysisReport := do
  let config ← loadConfig surroundings config? request.path
  let rules ← selectRules request
  let plan : AnalyzerPlan :=
    { rules, root? := some request.path, config, exclude := request.exclude }
  let analyzer ← CommandM.ofExcept (fun _ => "Failed to build analyzer")
    (Analyzer.build surroundings.workingDirectory plan)
  if request.fix then
    let _ ← CommandM.onWorkspace "Fixing failed" analyzer.fixAll
  CommandM.onWorkspace "Analysis failed" analyzer.analyze

/-- The text in a column of the given width. -/
def column (width : Nat) (text : String) : String :=
  text ++ String.ofList (List.replicate (width - text.length) ' ')

/-- A line of the list of rules. -/
def ruleLine (id severity description : String) : String :=
  s!"{column 22 id} {column 9 severity} {description}\n"

/-- The list of rules. -/
def ruleList : String :=
  "Available rules:\n\n" ++ ruleLine "Id" "Default" "Description"
    ++ String.ofList (List.replicate 80 '-') ++ "\n"
    ++ String.join (Rule.builtin.map fun rule =>
      ruleLine rule.id rule.defaultSeverity.name rule.description)
    ++ "\nUse --rules to run a subset, e.g.:\n"
    ++ "  zlinter check --rules declaration_naming,no_undefined\n"

/-- The name of the configuration file that is written for a new project. -/
def configFileName : String := "zlinter.toml"

/-- The configuration file that is written for a new project. -/
def initialConfig : String := r#"# zlinter configuration

[analyzer]
# Root directory to analyze (default: current directory)
# root = "./src"

# Glob patterns to exclude from analysis
exclude = [
    "**/zig-cache/**",
    "**/.zig-cache/**",
    "**/zig-out/**",
]

# Respect .gitignore files
respect_gitignore = true

# Rule configurations
# Each rule can be enabled/disabled and have its severity overridden
# ("off", "warning" or "error"). Naming styles are one of "off",
# "snake_case", "TitleCase", "camelCase", "SCREAMING_SNAKE_CASE", "lower_case".

[rules.declaration_naming]
enabled = true
# function = "camelCase"
# type_function = "TitleCase"
exclude_extern = true

[rules.field_naming]
enabled = true
# struct_field = "snake_case"

[rules.no_undefined]
severity = "warning"
exclude_tests = true
# exclude_var_decl_name_ends_with = ["memory", "mem", "buffer", "buf", "buff"]
# init_method_names = ["deinit"]
"#

/-- What is printed after a configuration file has been written. -/
def initNotice : String :=
  s!"Created {configFileName}\n\nNext steps:\n  1. Edit {configFileName} to configure rules\n"
    ++ "  2. Run: zlinter check\n"

/-- Write a configuration file into the working directory. -/
def writeConfig (surroundings : Surroundings) (force : Bool) : CommandM Unit := do
  let workspace ← get
  let path := Path.join surroundings.workingDirectory configFileName
  if workspace.disk.isPresent path && !force then
    throw s!"Configuration file already exists at {path}. Use --force to overwrite."
  let disk ← CommandM.ofExcept AccessFault.message
    (workspace.disk.write path (.text initialConfig))
  set { workspace with disk }

/-- Run a command and answer its exit code and output. -/
def run (surroundings : Surroundings) (invocation : Invocation) : CommandM CommandOutcome := do
  match invocation.command with
  | .check request =>
      let report ← runCheck surroundings invocation.config? request
      return {
        exitCode := if report.hasErrors then 1 else 0
        output := report.render request.format
      }
  | .listRules => return { exitCode := 0, output := ruleList }
  | .init force =>
      writeConfig surroundings force
      return { exitCode := 0, output := initNotice }

/-- How to use the program. -/
def usage : String :=
  "Linter for Zig source code\n\nUsage: zlinter [OPTIONS] <COMMAND>\n\nCommands:\n"
    ++ "  check       Run lint checks\n"
    ++ "  list-rules  List available rules\n"
    ++ "  init        Initialize configuration file\n"
    ++ "  help        Print this message or the help of the given subcommand(s)\n\nOptions:\n"
    ++ "  -v, --verbose          Enable verbose output\n"
    ++ "  -c, --config <CONFIG>  Path to configuration file [env: ZLINTER_CONFIG=]\n"
    ++ "  -h, --help             Print help\n"
    ++ "  -V, --version          Print version\n"

/-- Name and version of the program. -/
def versionLine : String := "zlinter 0.3.0\n"

/-- Run the program on a disk. -/
def runProgram (surroundings : Surroundings) (arguments : List String) (disk : Disk) :
    CommandOutcome × Disk :=
  match Invocation.parse surroundings.config? arguments with
  | .help => ({ exitCode := 0, output := usage }, disk)
  | .version => ({ exitCode := 0, output := versionLine }, disk)
  | .misuse => ({ exitCode := 2 }, disk)
  | .run invocation =>
      let (answer, workspace) := (run surroundings invocation).run.run { disk }
      match answer with
      | .ok outcome => (outcome, workspace.disk)
      | .error message => ({ exitCode := 1, error? := some message }, workspace.disk)

end Command

end ZigLint
