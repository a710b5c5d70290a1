import ZigLint.Problem.Basic

namespace ZigLint

/-!
# Reports

The results of an analysis over many files, with counts and two plain-text
forms: a long one with a summary and one with a line per problem.
-/

/-- The results of the files with problems, and the number of files that were looked at. -/
structure AnalysisReport where
  results : List LintResult
  filesChecked : Nat
  deriving Repr, DecidableEq

namespace AnalysisReport

/-- All problems that count. -/
def activeProblems (report : AnalysisReport) : List Problem :=
  report.results.flatMap LintResult.activeProblems

/-- Number of problems that count and have the given severity. -/
def countAt (report : AnalysisReport) (severity : Severity) : Nat :=
  report.activeProblems.countP fun problem => problem.severity == severity

/-- Number of problems that a comment disables. -/
def suppressedCount (report : AnalysisReport) : Nat :=
  (report.results.flatMap LintResult.problems).countP Problem.disabledByComment

/-- Some problem that counts has at least the given severity. -/
def hasProblemsAt (report : AnalysisReport) (severity : Severity) : Bool :=
  report.activeProblems.any fun problem => problem.severity.reaches severity

/-- Some problem that counts is an error. -/
def hasErrors (report : AnalysisReport) : Bool :=
  report.hasProblemsAt .error

/-- The report with the problems of each result in order. -/
def sort (report : AnalysisReport) : AnalysisReport :=
  { report with results := report.results.map LintResult.sort }

/-- The last line of the long forms. -/
def summaryLine (report : AnalysisReport) : String :=
  let errors := report.countAt .error
  let warnings := report.countAt .warning
  s!"Found {errors} error(s), {warnings} warning(s) in {report.filesChecked} file(s)\n"

/-- The text of each problem that counts, in order. -/
def renderProblems (render : String → Problem → String) (report : AnalysisReport) : String :=
  String.join (report.results.flatMap fun result =>
    result.activeProblems.map (render result.filePath))

/-- The long form: a paragraph for each problem, then a summary. -/
def text (report : AnalysisReport) : String :=
  let problems := report.renderProblems fun path problem => problem.format path ++ "\n"
  problems ++ "\n" ++ report.summaryLine

/-- A problem on one line. -/
def compactLine (path : String) (problem : Problem) : String :=
  let place := s!"{path}:{problem.start.line}:{problem.start.column}"
  s!"{place}: {problem.severity.name} [{problem.ruleId}] {problem.message}\n"

/-- The short form: a line for each problem. -/
def compact (report : AnalysisReport) : String :=
  report.renderProblems compactLine

end AnalysisReport

end ZigLint
