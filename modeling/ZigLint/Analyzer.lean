import ZigLint.Config.Basic
import ZigLint.Glob
import ZigLint.Path
import ZigLint.Rule.Builtin

namespace ZigLint

/-!
# Analyzers

An analyzer is a checked combination of rules, configuration and patterns of
paths to leave out. `Analyzer.build` makes one or says what is wrong;
`Analyzer.lint` runs the enabled rules on a document, marks the problems that
comments disable and puts all of them in order.
-/

/-- What an analyzer is built from. -/
structure AnalyzerPlan where
  rules : List Rule
  /-- What to analyze, if not the root that the configuration names. -/
  root? : Option String := none
  config : Config := {}
  /-- Patterns in addition to those of the configuration. -/
  exclude : List String := []
  /-- Something is at hand that turns files into syntax trees. -/
  hasProvider : Bool := true

/-- Why an analyzer cannot be built. -/
inductive PlanError where
  | missingProvider
  | duplicateRule (id : String)
  | invalidOptions (invalid : InvalidOptions)
  | invalidPattern (pattern : String)
  deriving Repr

namespace PlanError

/-- The wording of the error. -/
def message : PlanError → String
  | .missingProvider => "No AST provider configured"
  | .duplicateRule id => s!"Rule '{id}' is registered more than once"
  | .invalidOptions invalid => s!"Configuration error: {invalid.message}"
  | .invalidPattern pattern => s!"Invalid glob pattern: {pattern}"

end PlanError

/-- Rules that can be run together. -/
structure Analyzer where
  root : String
  rules : List Rule
  config : Config
  exclude : List Glob

namespace Analyzer

/-- The first of the ids that occurs before, among `seen` or in the list. -/
def firstRepeated? (seen : List String) : List String → Option String
  | [] => none
  | id :: rest => if seen.contains id then some id else firstRepeated? (id :: seen) rest

/-- Check that no two rules share an id. -/
def checkIds (rules : List Rule) : Except PlanError Unit :=
  match firstRepeated? [] (rules.map Rule.id) with
  | some id => .error (.duplicateRule id)
  | none => .ok ()

/-- Check the options of a rule, if it is enabled. -/
def checkRule (config : Config) (rule : Rule) : Except PlanError Unit :=
  if config.isEnabled rule.id then
    match rule.checkOptions (config.ruleOptions rule.id rule.defaultSeverity).table with
    | .ok _ => .ok ()
    | .error invalid => .error (.invalidOptions invalid)
  else
    .ok ()

/-- Read a pattern. -/
def readPattern (pattern : String) : Except PlanError Glob :=
  match Glob.parse? pattern with
  | some glob => .ok glob
  | none => .error (.invalidPattern pattern)

/-- Build an analyzer; a relative root starts at the working directory. -/
def build (workingDirectory : String) (plan : AnalyzerPlan) : Except PlanError Analyzer := do
  if !plan.hasProvider then
    throw .missingProvider
  checkIds plan.rules
  plan.rules.forM (checkRule plan.config)
  let exclude ← (plan.exclude ++ plan.config.analysis.exclude).mapM readPattern
  return {
    root := Path.join workingDirectory (plan.root?.getD plan.config.analysis.root)
    rules := plan.rules
    config := plan.config
    exclude
  }

/-- The ids of the rules, in order. -/
def ruleIds (analyzer : Analyzer) : List String :=
  analyzer.rules.map Rule.id

/-- What a rule is run with. -/
def ruleOptions (analyzer : Analyzer) (rule : Rule) : RuleOptions :=
  analyzer.config.ruleOptions rule.id rule.defaultSeverity

/-- The analyzer runs the rule. -/
def runs (analyzer : Analyzer) (rule : Rule) : Bool :=
  analyzer.config.isEnabled rule.id && (analyzer.ruleOptions rule).severity != .off

/-- What one rule finds in a document: nothing if it does not run. -/
def ruleProblems (analyzer : Analyzer) (document : Document) (rule : Rule) : List Problem :=
  if analyzer.runs rule then
    rule.problems (analyzer.ruleOptions rule) document
  else
    []

/-- The problem with a note whether a comment disables it. -/
def markSuppressed (document : Document) (problem : Problem) : Problem :=
  { problem with disabledByComment := document.suppresses problem }

/-- Run all enabled rules on a document. -/
def lint (analyzer : Analyzer) (document : Document) : LintResult :=
  let found := analyzer.rules.flatMap (analyzer.ruleProblems document)
  LintResult.sort { filePath := document.path, problems := found.map (markSuppressed document) }

/-- Apply the fixes of all problems that count. -/
def fixDocument (analyzer : Analyzer) (document : Document) : FixOutcome :=
  let fixes := (analyzer.lint document).activeProblems.filterMap Problem.fix?
  Fix.apply document.tree.source fixes

/-- A pattern leaves the path out; `relative` is the path below the root of the analysis. -/
def excludes (analyzer : Analyzer) (path relative : String) : Bool :=
  analyzer.exclude.any fun glob => glob.isMatch path || glob.isMatch relative

end Analyzer

end ZigLint
