import Mathlib.Algebra.Group.Nat.Defs
import ZigLint.Proofs.Json.RoundTrip
import ZigLint.Report.Json

namespace ZigLint

/-!
# Reports are read back

A report that is written as JSON text and read again is the same report, with
every result, problem and fix in it. Each record is read back from its own JSON
value; the text is left to the theory of JSON. Numbers have at most 64 bits.
-/

/-- The numbers of a location. -/
def Location.numbers (location : Location) : List Nat :=
  [location.offset, location.line, location.column]

/-- The numbers of a fix. -/
def Fix.numbers (fix : Fix) : List Nat :=
  [fix.start, fix.stop]

/-- The numbers of a problem, those of its fix included. -/
def Problem.numbers (problem : Problem) : List Nat :=
  problem.start.numbers ++ problem.stop.numbers ++ problem.fix?.toList.flatMap Fix.numbers

/-- The numbers of the problems of a file. -/
def LintResult.numbers (result : LintResult) : List Nat :=
  result.problems.flatMap Problem.numbers

/-- Every number that stands in a report. -/
def AnalysisReport.numbers (report : AnalysisReport) : List Nat :=
  report.filesChecked :: report.results.flatMap LintResult.numbers

/-- The numbers have at most 64 bits. -/
def AreWords (numbers : List Nat) : Prop :=
  ∀ number ∈ numbers, number < 2 ^ 64

instance (numbers : List Nat) : Decidable (AreWords numbers) :=
  inferInstanceAs (Decidable (∀ number ∈ numbers, number < 2 ^ 64))

theorem Json.natural?_integer {number : Nat} (isWord : number < 2 ^ 64) :
    (Json.integer number).natural? = some number := by
  have inRange : (0 : Int) ≤ number ∧ (number : Int) ≤ 0xFFFFFFFFFFFFFFFF := by omega
  rw [natural?, if_pos inRange, Int.toNat_natCast]

/-- A list is read back if its members are. -/
theorem mapM_map_eq_some
    {write : α → β}
    {read? : β → Option α}
    {values : List α}
    (readsBack : ∀ value ∈ values, read? (write value) = some value) :
    (values.map write).mapM read? = some values := by
  induction values with
  | nil => rfl
  | cons value others inductionHypothesis =>
      obtain ⟨readsValue, readsOthers⟩ := List.forall_mem_cons.mp readsBack
      rw [List.map_cons, List.mapM_cons, readsValue, inductionHypothesis readsOthers]
      rfl

section Records

theorem Location.ofJson?_toJson {location : Location} (words : AreWords location.numbers) :
    ofJson? location.toJson = some location := by
  simp only [AreWords, numbers, List.forall_mem_cons] at words
  obtain ⟨offsetWord, lineWord, columnWord, -⟩ := words
  have offset := Json.natural?_integer offsetWord
  have line := Json.natural?_integer lineWord
  have column := Json.natural?_integer columnWord
  simp [ofJson?, toJson, Json.parts?, Json.get?, offset, line, column]

theorem Fix.ofJson?_toJson {fix : Fix} (words : AreWords fix.numbers) :
    ofJson? fix.toJson = some fix := by
  simp only [AreWords, numbers, List.forall_mem_cons] at words
  obtain ⟨startWord, stopWord, -⟩ := words
  have start := Json.natural?_integer startWord
  have stop := Json.natural?_integer stopWord
  simp [ofJson?, toJson, Json.parts?, Json.get?, Json.text?, start, stop]

theorem Severity.ofJson?_toJson (severity : Severity) :
    ofJson? severity.toJson = some severity := by
  cases severity <;> decide

/-- A fix that is left out is read as a missing one, and no fix is written as null. -/
theorem Problem.fixOfJson?_toJson
    {fix? : Option Fix}
    (words : AreWords (fix?.toList.flatMap Fix.numbers)) :
    fixOfJson? (fix?.map Fix.toJson) = some fix? := by
  cases fix? with
  | none => rfl
  | some fix =>
      have read : Fix.ofJson? fix.toJson = some fix := Fix.ofJson?_toJson (by simpa using words)
      exact congrArg (Option.map some) read

theorem Problem.ofJson?_toJson {problem : Problem} (words : AreWords problem.numbers) :
    ofJson? problem.toJson = some problem := by
  simp only [AreWords, numbers, List.forall_mem_append] at words
  obtain ⟨⟨startWords, stopWords⟩, fixWords⟩ := words
  have start := Location.ofJson?_toJson startWords
  have stop := Location.ofJson?_toJson stopWords
  have fix := fixOfJson?_toJson fixWords
  have severity := Severity.ofJson?_toJson problem.severity
  have parts :
      problem.toJson.parts? ["rule_id", "severity", "start", "end", "message",
          "disabled_by_comment", "fix"] =
        some [some (.string problem.ruleId), some problem.severity.toJson,
          some problem.start.toJson, some problem.stop.toJson, some (.string problem.message),
          some (.boolean problem.disabledByComment), problem.fix?.map Fix.toJson] := by
    cases fix_eq : problem.fix? <;> simp [toJson, Json.parts?, Json.get?, fix_eq]
  simp [ofJson?, parts, Json.text?, Json.boolean?, disabledOfJson?, start, stop, fix, severity]

theorem LintResult.ofJson?_toJson {result : LintResult} (words : AreWords result.numbers) :
    ofJson? result.toJson = some result := by
  have problems :
      (result.problems.map Problem.toJson).mapM Problem.ofJson? = some result.problems :=
    mapM_map_eq_some fun problem isIn => Problem.ofJson?_toJson fun number inProblem =>
      words number (List.mem_flatMap.mpr ⟨problem, isIn, inProblem⟩)
  simp [ofJson?, toJson, Json.parts?, Json.get?, Json.text?, Json.items?, problems]

theorem AnalysisReport.ofJson?_toJson
    {report : AnalysisReport}
    (words : AreWords report.numbers) :
    ofJson? report.toJson = some report := by
  obtain ⟨countWord, inResults⟩ := List.forall_mem_cons.mp words
  have filesChecked := Json.natural?_integer countWord
  have results :
      (report.results.map LintResult.toJson).mapM LintResult.ofJson? = some report.results :=
    mapM_map_eq_some fun result isIn => LintResult.ofJson?_toJson fun number inResult =>
      inResults number (List.mem_flatMap.mpr ⟨result, isIn, inResult⟩)
  simp [ofJson?, toJson, Json.parts?, Json.get?, Json.items?, filesChecked, results]

end Records

section Nesting

variable {depth : Nat}

theorem Location.toJson_fits (location : Location) : location.toJson.Fits (depth + 1) := by
  refine .object ?_
  simp only [List.forall_mem_cons]
  exact ⟨.integer _, .integer _, .integer _, List.forall_mem_nil _⟩

theorem Fix.toJson_fits (fix : Fix) : fix.toJson.Fits (depth + 1) := by
  refine .object ?_
  simp only [List.forall_mem_cons]
  exact ⟨.integer _, .integer _, .string _, List.forall_mem_nil _⟩

theorem Problem.toJson_fits (problem : Problem) : problem.toJson.Fits (depth + 2) := by
  refine .object ?_
  simp only [List.forall_mem_append, List.forall_mem_cons]
  refine ⟨⟨.string _, .string _, problem.start.toJson_fits, problem.stop.toJson_fits, .string _,
    .boolean _, List.forall_mem_nil _⟩, ?_⟩
  intro entry isIn
  obtain ⟨fix, -, rfl⟩ := Option.map_eq_some_iff.mp (Option.mem_toList.mp isIn)
  exact fix.toJson_fits

theorem LintResult.toJson_fits (result : LintResult) : result.toJson.Fits (depth + 4) := by
  refine .object ?_
  simp only [List.forall_mem_cons]
  refine ⟨.string _, .array ?_, List.forall_mem_nil _⟩
  simp only [List.forall_mem_map]
  exact fun problem _ => problem.toJson_fits

/-- Six arrays and objects nest in a report, however many results it has. -/
theorem AnalysisReport.toJson_fits (report : AnalysisReport) : report.toJson.Fits (depth + 6) := by
  refine .object ?_
  simp only [List.forall_mem_cons]
  refine ⟨.array ?_, .integer _, List.forall_mem_nil _⟩
  simp only [List.forall_mem_map]
  exact fun result _ => result.toJson_fits

end Nesting

/--
A report is read back from its JSON text.

Its texts may hold any characters and its lists may have any length; a problem
may have a fix or none.
-/
theorem AnalysisReport.ofText?_json
    (report : AnalysisReport)
    (words : AreWords report.numbers) :
    ofText? report.json = some report := by
  have parsed : Json.parse? report.json = some report.toJson := report.toJson_fits.parse?_pretty
  rw [ofText?, parsed]
  exact ofJson?_toJson words

/-- A report with texts that need escapes, with the largest number and with and without a fix. -/
def AnalysisReport.awkward : AnalysisReport where
  results := [{
    filePath := "src\\\"ä\".zig"
    problems := [
      { ruleId := "no_undefined"
        severity := .warning
        start := { offset := 0, line := 1, column := 1 }
        stop := { offset := 8, line := 1, column := 9 }
        message := "tab\t, bell\x07 and line\n"
        disabledByComment := true
        fix? := none },
      { ruleId := "field_naming"
        severity := .error
        start := { offset := 2, line := 1, column := 3 }
        stop := { offset := 2, line := 1, column := 3 }
        message := ""
        disabledByComment := false
        fix? := some { start := 2, stop := 18446744073709551615, text := "日本" } }] }]
  filesChecked := 7

theorem AnalysisReport.ofText?_json_awkward :
    AreWords awkward.numbers ∧ ofText? awkward.json = some awkward := by
  have words : AreWords awkward.numbers := by decide
  exact ⟨words, ofText?_json awkward words⟩

end ZigLint
