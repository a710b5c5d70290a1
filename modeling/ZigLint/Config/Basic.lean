import ZigLint.Rule.Options
import ZigLint.Toml.Parser

namespace ZigLint

/-!
# Configuration

A configuration has settings for the analysis and, for each rule, whether it
runs, with which severity and with which options. Everything has a default, and
keys that are not known at the upper levels are passed over.
-/

/-- Settings of the analysis. -/
structure AnalysisSettings where
  root : String := "."
  exclude : List String := ["**/zig-cache/**", "**/.zig-cache/**", "**/zig-out/**"]
  respectGitignore : Bool := true
  parallelism? : Option Nat := none
  deriving Repr, DecidableEq

/-- Settings of one rule. -/
structure RuleSettings where
  enabled? : Option Bool
  severity? : Option Severity
  options : Toml.Table
  deriving Repr

/-- A configuration; the settings of rules are listed under their ids. -/
structure Config where
  analysis : AnalysisSettings := {}
  rules : List (String × RuleSettings) := []
  deriving Repr

namespace AnalysisSettings

/-- A text or the default. -/
def text? (default : String) : Option Toml.Value → Option String
  | none => some default
  | some (.string text) => some text
  | some _ => none

/-- A list of texts or the default. -/
def texts? (default : List String) : Option Toml.Value → Option (List String)
  | none => some default
  | some (.array items) => items.mapM fun item => text? "" (some item)
  | some _ => none

/-- A truth value or the default. -/
def boolean? (default : Bool) : Option Toml.Value → Option Bool
  | none => some default
  | some (.boolean truth) => some truth
  | some _ => none

/-- A natural number or nothing. -/
def natural? : Option Toml.Value → Option (Option Nat)
  | none => some none
  | some (.integer number) => if 0 ≤ number then some (some number.toNat) else none
  | some _ => none

/-- The settings with the given values, and the defaults for missing ones. -/
def ofValues? (root exclude respectGitignore parallelism : Option Toml.Value) :
    Option AnalysisSettings := do
  let defaults : AnalysisSettings := {}
  return {
    root := ← text? defaults.root root
    exclude := ← texts? defaults.exclude exclude
    respectGitignore := ← boolean? defaults.respectGitignore respectGitignore
    parallelism? := ← natural? parallelism
  }

/-- The settings that a table names, or an array lists in order. -/
def ofValue? : Toml.Value → Option AnalysisSettings
  | .table entries =>
      ofValues? (Toml.Table.get? entries "root") (Toml.Table.get? entries "exclude")
        (Toml.Table.get? entries "respect_gitignore") (Toml.Table.get? entries "parallelism")
  | .array items => ofValues? items[0]? items[1]? items[2]? items[3]?
  | _ => none

end AnalysisSettings

namespace RuleSettings

/-- A severity by its name, or as a table whose only key is its name. -/
def severityOf? : Toml.Value → Option Severity
  | .string name => Severity.ofName? name
  | .table [(name, value)] => if value.isEmpty then Severity.ofName? name else none
  | _ => none

/-- The keys that are not options of the rule. -/
def ownKeys : List String :=
  ["enabled", "severity"]

/-- The settings in a table; entries other than the own keys are options of the rule. -/
def ofValue? : Toml.Value → Option RuleSettings
  | .table entries => do
      let enabled? ←
        match Toml.Table.get? entries "enabled" with
        | none => some none
        | some (.boolean truth) => some (some truth)
        | some _ => none
      let severity? ←
        match Toml.Table.get? entries "severity" with
        | none => some none
        | some value => (severityOf? value).map some
      let options := entries.filter fun (key, _) => !ownKeys.contains key
      return { enabled?, severity?, options := ← Toml.Table.settle? options }
  | _ => none

end RuleSettings

namespace Config

/-- The configuration in a table. -/
def ofTable? (table : Toml.Table) : Option Config := do
  let analysis ←
    match table.get? "analyzer" with
    | none => some {}
    | some value => AnalysisSettings.ofValue? value
  let rules ←
    match table.get? "rules" with
    | none => some []
    | some (.table entries) =>
        entries.mapM fun (id, value) => do return (id, ← RuleSettings.ofValue? value)
    | some _ => none
  return { analysis, rules }

/-- The configuration that a TOML text describes. -/
def parse? (text : String) : Option Config := do
  ofTable? (← Toml.parse? text)

/-- The settings of a rule. -/
def rule? (config : Config) (id : String) : Option RuleSettings :=
  (config.rules.find? fun (ruleId, _) => ruleId == id).map Prod.snd

/-- The rule runs: it is not disabled and its severity is not switched off. -/
def isEnabled (config : Config) (id : String) : Bool :=
  (config.rule? id).all fun settings =>
    settings.enabled?.getD true && settings.severity? != some .off

/-- The severity that the configuration gives to a rule. -/
def severity? (config : Config) (id : String) : Option Severity :=
  (config.rule? id).bind RuleSettings.severity?

/-- What a rule is run with; `default` is its own severity. -/
def ruleOptions (config : Config) (id : String) (default : Severity) : RuleOptions where
  severity := (config.severity? id).getD default
  table := ((config.rule? id).map RuleSettings.options).getD []

end Config

end ZigLint
