import ZigLint.Analyzer
import ZigLint.Disk.Ignore
import ZigLint.Report.Basic
import ZigLint.Workspace.Basic

namespace ZigLint

/-!
# Analysis of workspaces

An analyzer works on the files of a workspace: it analyzes or fixes one file or
all sources below its root. Files without a syntax tree are passed over, and
reports list files in the order of their paths.
-/

/-- Totals of a run that fixes files. -/
structure FixSummary where
  filesFixed : Nat
  applied : Nat
  skipped : Nat
  deriving Repr, DecidableEq

namespace FixSummary

/-- The totals of the outcomes of some files. -/
def ofOutcomes (outcomes : List FixOutcome) : FixSummary where
  filesFixed := outcomes.countP fun outcome => !outcome.applied.isEmpty
  applied := (outcomes.flatMap FixOutcome.applied).length
  skipped := (outcomes.flatMap FixOutcome.skipped).length

end FixSummary

namespace Analyzer

/-- Analyze one file; a file without a tree has no result. -/
def analyzeFile (analyzer : Analyzer) (path : String) : WorkspaceM (Option LintResult) := do
  return (← Workspace.openDocument path).map analyzer.lint

/-- Apply the fixes for one file to the disk; a file without a tree has no outcome. -/
def fixFile (analyzer : Analyzer) (path : String) : WorkspaceM (Option FixOutcome) := do
  match ← Workspace.openDocument path with
  | none => return none
  | some document =>
      let outcome := analyzer.fixDocument document
      if !outcome.applied.isEmpty then
        Workspace.writeFile path outcome.output
        Workspace.forget path
      return some outcome

/-- The path of a Zig source. -/
def isSource (path : String) : Bool :=
  Path.extension? path == some "zig"

/-- The files to analyze: the root itself if it is a file, else the sources below it, in order. -/
def sources (analyzer : Analyzer) : WorkspaceM (List String) := do
  let disk := (← get).disk
  match disk.locate analyzer.root with
  | .error fault => throw (.noRoot analyzer.root fault)
  | .ok (_, .file _) => return [analyzer.root]
  | .ok (directory, .directory) =>
      let found := disk.walk analyzer.config.analysis.respectGitignore directory
      let paths := found.filterMap fun names =>
        let relative := "/".intercalate names
        let path := Path.join analyzer.root relative
        if isSource path && !analyzer.excludes path relative then some path else none
      return Path.sort paths

/-- The report on the results of all files that have a tree. -/
def reportOf (results : List LintResult) : AnalysisReport where
  results := (results.filter fun result => !result.problems.isEmpty).mergeSort fun left right =>
    !Path.precedes right.filePath left.filePath
  filesChecked := results.length

/-- Analyze all files. -/
def analyze (analyzer : Analyzer) : WorkspaceM AnalysisReport := do
  let results ← (← analyzer.sources).mapM analyzer.analyzeFile
  return reportOf (results.filterMap fun result => result)

/-- Apply the fixes for all files to the disk. -/
def fixAll (analyzer : Analyzer) : WorkspaceM FixSummary := do
  let outcomes ← (← analyzer.sources).mapM analyzer.fixFile
  return .ofOutcomes (outcomes.filterMap fun outcome => outcome)

end Analyzer

end ZigLint
