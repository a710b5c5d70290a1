import ZigLint.Json.Parser
import ZigLint.Json.Printer
import ZigLint.Report.Basic

namespace ZigLint

/-!
# Reports as JSON

Every part of a report can be written as JSON and read back. A fix that is
missing is left out, and reading fills in what may be left out.
-/

namespace Location

/-- The location as JSON. -/
def toJson (location : Location) : Json :=
  .object [("offset", .integer location.offset), ("line", .integer location.line),
    ("column", .integer location.column)]

/-- Read a location. -/
def ofJson? (json : Json) : Option Location := do
  match ← json.parts? ["offset", "line", "column"] with
  | [some offset, some line, some column] =>
      return {
        offset := ← offset.natural?
        line := ← line.natural?
        column := ← column.natural?
      }
  | _ => none

end Location

namespace Fix

/-- The fix as JSON. -/
def toJson (fix : Fix) : Json :=
  .object [("start", .integer fix.start), ("end", .integer fix.stop), ("text", .string fix.text)]

/-- Read a fix. -/
def ofJson? (json : Json) : Option Fix := do
  match ← json.parts? ["start", "end", "text"] with
  | [some start, some stop, some text] =>
      return {
        start := ← start.natural?
        stop := ← stop.natural?
        text := ← text.text?
      }
  | _ => none

end Fix

namespace Severity

/-- The severity as JSON. -/
def toJson (severity : Severity) : Json :=
  .string severity.name

/-- Read a severity: its name, or an object whose only key is its name, with the value null. -/
def ofJson? : Json → Option Severity
  | .string name => ofName? name
  | .object [(name, .null)] => ofName? name
  | _ => none

end Severity

namespace Problem

/-- The problem as JSON. -/
def toJson (problem : Problem) : Json :=
  let fixEntry := problem.fix?.map fun fix => ("fix", fix.toJson)
  .object ([("rule_id", .string problem.ruleId), ("severity", problem.severity.toJson),
    ("start", problem.start.toJson), ("end", problem.stop.toJson),
    ("message", .string problem.message),
    ("disabled_by_comment", .boolean problem.disabledByComment)] ++ fixEntry.toList)

/-- Read the flag that a comment disables the problem; it may be left out. -/
def disabledOfJson? : Option Json → Option Bool
  | none => some false
  | some json => json.boolean?

/-- Read the fix of a problem; it may be left out or null. -/
def fixOfJson? : Option Json → Option (Option Fix)
  | none | some .null => some none
  | some json => (Fix.ofJson? json).map some

/-- Read a problem. -/
def ofJson? (json : Json) : Option Problem := do
  match ← json.parts? ["rule_id", "severity", "start", "end", "message", "disabled_by_comment",
    "fix"] with
  | [some ruleId, some severity, some start, some stop, some message, disabled, fix] =>
      return {
        ruleId := ← ruleId.text?
        severity := ← Severity.ofJson? severity
        start := ← Location.ofJson? start
        stop := ← Location.ofJson? stop
        message := ← message.text?
        disabledByComment := ← disabledOfJson? disabled
        fix? := ← fixOfJson? fix
      }
  | _ => none

end Problem

namespace LintResult

/-- The result as JSON. -/
def toJson (result : LintResult) : Json :=
  .object [("file_path", .string result.filePath),
    ("problems", .array (result.problems.map Problem.toJson))]

/-- Read a result. -/
def ofJson? (json : Json) : Option LintResult := do
  match ← json.parts? ["file_path", "problems"] with
  | [some filePath, some problems] =>
      return {
        filePath := ← filePath.text?
        problems := ← (← problems.items?).mapM Problem.ofJson?
      }
  | _ => none

end LintResult

namespace AnalysisReport

/-- The report as JSON. -/
def toJson (report : AnalysisReport) : Json :=
  .object [("results", .array (report.results.map LintResult.toJson)),
    ("files_checked", .integer report.filesChecked)]

/-- Read a report. -/
def ofJson? (json : Json) : Option AnalysisReport := do
  match ← json.parts? ["results", "files_checked"] with
  | [some results, some filesChecked] =>
      return {
        results := ← (← results.items?).mapM LintResult.ofJson?
        filesChecked := ← filesChecked.natural?
      }
  | _ => none

/-- The JSON form of the report as text. -/
def json (report : AnalysisReport) : String :=
  report.toJson.pretty ++ "\n"

/-- Read the JSON form of a report. -/
def ofText? (text : String) : Option AnalysisReport := do
  ofJson? (← Json.parse? text)

end AnalysisReport

end ZigLint
