import ZigLint.Fix
import ZigLint.Text.Location

namespace ZigLint

/-!
# Problems

What a rule reports: a message of some severity about a range of a source, with
an optional fix. The problems of one file make up a `LintResult`.
-/

/-- How serious a problem is. -/
inductive Severity where
  | off
  | warning
  | error
  deriving Repr, DecidableEq, Inhabited

namespace Severity

/-- Every severity, from the lowest to the highest. -/
def all : List Severity :=
  [.off, .warning, .error]

/-- The name of the severity. -/
def name : Severity → String
  | .off => "off"
  | .warning => "warning"
  | .error => "error"

/-- The severity with the given name. -/
def ofName? (name : String) : Option Severity :=
  all.find? fun severity => severity.name == name

/-- Severities in increasing order. -/
def rank : Severity → Nat
  | .off => 0
  | .warning => 1
  | .error => 2

/-- The severity is at least `level`. -/
def reaches (severity level : Severity) : Bool :=
  level.rank ≤ severity.rank

end Severity

/-- A problem that a rule found; `stop` is the location of its last byte. -/
structure Problem where
  ruleId : String
  severity : Severity
  start : Location
  stop : Location
  message : String
  disabledByComment : Bool
  fix? : Option Fix
  deriving Repr, DecidableEq

namespace Problem

/-- The problem counts: no comment disables it, and it is not switched off. -/
def isActive (problem : Problem) : Bool :=
  !problem.disabledByComment && problem.severity != .off

/-- The order of problems in a result: by line, then column, then rule. -/
def precedes (left right : Problem) : Bool :=
  if left.start.line ≠ right.start.line then
    left.start.line < right.start.line
  else if left.start.column ≠ right.start.column then
    left.start.column < right.start.column
  else
    left.ruleId < right.ruleId

/-- The problem as lines of text. -/
def format (problem : Problem) (path : String) : String :=
  let place := s!"{path}:{problem.start.line}:{problem.start.column}"
  let fixLine :=
    match problem.fix? with
    | some fix => s!"  = fix: replace with `{fix.text}`\n"
    | none => ""
  s!"{problem.ruleId} at {place}\n  {problem.severity.name}: {problem.message}\n{fixLine}"

end Problem

/-- A problem prepared for display next to the source it is about. -/
structure Diagnostic where
  text : String
  help? : Option String
  labelOffset : Nat
  labelLength : Nat
  label : String
  deriving Repr, DecidableEq

namespace Problem

/-- The diagnostic of a problem. -/
def diagnostic (problem : Problem) : Diagnostic where
  text := s!"[{problem.ruleId}] {problem.message}"
  help? := problem.fix?.map fun fix => s!"replace with `{fix.text}`"
  labelOffset := problem.start.offset
  labelLength := problem.stop.offset - problem.start.offset + 1
  label := problem.ruleId

end Problem

/-- The problems of one file. -/
structure LintResult where
  filePath : String
  problems : List Problem
  deriving Repr, DecidableEq

namespace LintResult

/-- A result for the problems of a file, unless there are none. -/
def ofProblems? (filePath : String) (problems : List Problem) : Option LintResult :=
  if problems.isEmpty then none else some { filePath, problems }

/-- The problems that count. -/
def activeProblems (result : LintResult) : List Problem :=
  result.problems.filter Problem.isActive

/-- The result with its problems in order; problems alike in all keys keep their order. -/
def sort (result : LintResult) : LintResult :=
  { result with
    problems := result.problems.mergeSort fun left right => !right.precedes left }

end LintResult

end ZigLint
