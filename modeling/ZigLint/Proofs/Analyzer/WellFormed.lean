import ZigLint.Proofs.Analyzer.FixDocument
import ZigLint.Proofs.Analyzer.RuleOrder
import ZigLint.Proofs.Rule.ReportedTokens

namespace ZigLint

/-!
# Well-formed problems

Every problem of an analyzer with built-in rules covers exactly one identifier of
the document, on one line, and its fix covers the same bytes. It carries the id
and the severity of a rule that runs. No two problems of a document share an
identifier, so the sorted problems start at growing offsets.
-/

/-- The problem covers one identifier of the document and comes from a rule that runs. -/
structure Analyzer.WellFormed
    (analyzer : Analyzer)
    (document : Document)
    (problem : Problem) :
    Prop where
  start_le_stop : problem.start.offset ≤ problem.stop.offset
  stop_lt_length : problem.stop.offset < document.tree.source.utf8ByteSize
  start_eq : problem.start = document.location problem.start.offset
  stop_eq : problem.stop = document.location problem.stop.offset
  same_line : problem.start.line = problem.stop.line
  /-- The bytes of the problem, both ends included, are the text of an identifier token. -/
  covers_identifier :
    ∃ token ∈ document.tree.tokens,
      token.kind = .identifier ∧
        token.span = { start := problem.start.offset, stop := problem.stop.offset + 1 } ∧
          Text.slice? document.tree.source.toList problem.start.offset (problem.stop.offset + 1) =
            some token.text.toList
  /-- A registered and enabled rule has the id of the problem, and the severity of this rule. -/
  of_rule :
    ∃ rule ∈ analyzer.rules,
      rule.id = problem.ruleId ∧
        analyzer.config.isEnabled problem.ruleId = true ∧
          problem.severity = (analyzer.ruleOptions rule).severity
  severity_ne_off : problem.severity ≠ .off
  fix_covers :
    ∀ fix, problem.fix? = some fix →
      fix.start = problem.start.offset ∧ fix.stop = problem.stop.offset + 1

namespace Analyzer

variable
  {source path : String}
  {tree : SyntaxTree}
  {analyzer : Analyzer}
  {rule : Rule}
  {problem : Problem}

/-- Notes on comments change nothing about what a problem reports. -/
theorem reports_markSuppressed
    {document : Document}
    {ruleId : String}
    {severity : Severity}
    {token : TokenIndex}
    (reports : document.Reports ruleId severity token problem) :
    document.Reports ruleId severity token (markSuppressed document problem) :=
  ⟨reports.isIdentifier, reports.isWord, reports.ruleId_eq, reports.severity_eq, reports.start_eq,
    reports.stop_eq, reports.fix_covers⟩

/-- What a rule of the analyzer finds is a report about a token that concerns the rule. -/
theorem exists_report
    (parsed : SyntaxTree.parse source = .ok tree)
    (isBuiltin : rule ∈ Rule.builtin)
    (isProblem : problem ∈ analyzer.markedProblems (.ofTree path tree) rule) :
    analyzer.runs rule = true ∧
      ∃ token,
        tree.Concerns token rule.id ∧
          (Document.ofTree path tree).Reports rule.id (analyzer.ruleOptions rule).severity token
            problem := by
  obtain ⟨original, isOriginal, rfl⟩ := List.mem_map.mp isProblem
  unfold ruleProblems at isOriginal
  split at isOriginal
  · rename_i runs
    obtain ⟨token, concerns, reports⟩ := Rule.exists_report parsed isBuiltin isOriginal
    exact ⟨runs, token, concerns, reports_markSuppressed reports⟩
  · cases isOriginal

/-- A report of a rule that runs is well-formed. -/
theorem wellFormed_of_reports
    {token : TokenIndex}
    (parsed : SyntaxTree.parse source = .ok tree)
    (isRule : rule ∈ analyzer.rules)
    (runs : analyzer.runs rule = true)
    (reports :
      (Document.ofTree path tree).Reports rule.id (analyzer.ruleOptions rule).severity token
        problem) :
    analyzer.WellFormed (.ofTree path tree) problem := by
  obtain ⟨entry, _, _, isToken, isIdentifier, textEq, spanEq, -, -, -⟩ :=
    reports.exists_token parsed
  obtain ⟨startOffset, stopOffset, inside⟩ := reports.offsets parsed
  have isWord : Lexeme.IsWord (tree.tokenText token).toList := reports.isWord
  have startLt := SyntaxTree.start_lt_stop_of_isWord isWord
  have stopBefore : problem.stop.offset = (tree.tokenSpan token).stop - 1 := by omega
  simp only [Analyzer.runs, Bool.and_eq_true, bne_iff_ne] at runs
  obtain ⟨isEnabled, notOff⟩ := runs
  constructor
  case start_le_stop => omega
  case stop_lt_length =>
      show problem.stop.offset < tree.source.utf8ByteSize
      omega
  case start_eq =>
      rw [startOffset]
      exact reports.start_eq
  case stop_eq =>
      rw [stopBefore]
      exact reports.stop_eq
  case same_line => exact reports.same_line parsed
  case covers_identifier =>
      refine ⟨entry, isToken, isIdentifier, ?_, ?_⟩
      · rw [startOffset, stopOffset, spanEq]
      · rw [← textEq]
        exact reports.slice?_eq parsed
  case of_rule =>
      rw [reports.ruleId_eq]
      exact ⟨rule, isRule, rfl, isEnabled, reports.severity_eq⟩
  case severity_ne_off =>
      rw [reports.severity_eq]
      exact notOff
  case fix_covers =>
      rw [startOffset, stopOffset]
      exact reports.fix_covers

/-- No two problems of a document start at the same place. -/
theorem markedProblems_pairwise
    (parsed : SyntaxTree.parse source = .ok tree)
    (ofBuiltin : analyzer.OfBuiltin) :
    (analyzer.rules.flatMap (analyzer.markedProblems (.ofTree path tree))).Pairwise
      fun earlier later => earlier.start.offset ≠ later.start.offset := by
  rw [List.pairwise_flatMap]
  constructor
  · intro rule isRule
    rw [markedProblems, List.pairwise_map, ruleProblems]
    split
    · exact Rule.problems_pairwise parsed (ofBuiltin.areBuiltin rule isRule)
    · exact .nil
  · -- Two rules never report the same token, since a token concerns one rule only.
    refine (List.pairwise_map.mp ofBuiltin.idsNodup).imp_of_mem ?_
    intro rule other isRule isOther idsDiffer problem isProblem otherProblem isOtherProblem
      sameOffset
    obtain ⟨-, token, concerns, reports⟩ :=
      exists_report parsed (ofBuiltin.areBuiltin rule isRule) isProblem
    obtain ⟨-, otherToken, otherConcerns, otherReports⟩ :=
      exists_report parsed (ofBuiltin.areBuiltin other isOther) isOtherProblem
    obtain rfl := reports.token_unique otherReports parsed sameOffset
    exact idsDiffer (concerns.rule_unique parsed otherConcerns)

theorem lint_perm
    (analyzer : Analyzer)
    (document : Document) :
    (analyzer.lint document).problems.Perm
      (analyzer.rules.flatMap (analyzer.markedProblems document)) := by
  rw [lint_eq]
  exact LintResult.sort_perm _

theorem lint_inOrder
    (analyzer : Analyzer)
    (document : Document) :
    (analyzer.lint document).problems.Pairwise fun earlier later =>
      earlier.mayPrecede later = true := by
  rw [lint_eq]
  exact LintResult.sort_pairwise _

/--
The problems of a document are well-formed, and they start at growing offsets: no
two of them are about the same identifier.
-/
theorem lint_wellFormed
    {workingDirectory : String}
    {plan : AnalyzerPlan}
    (parsed : SyntaxTree.parse source = .ok tree)
    (areBuiltin : ∀ rule ∈ plan.rules, rule ∈ Rule.builtin)
    (built : build workingDirectory plan = .ok analyzer) :
    (∀ problem ∈ (analyzer.lint (.ofTree path tree)).problems,
        analyzer.WellFormed (.ofTree path tree) problem) ∧
      (analyzer.lint (.ofTree path tree)).problems.Pairwise fun earlier later =>
        earlier.start.offset < later.start.offset := by
  have ofBuiltin := ofBuiltin_of_build built areBuiltin
  have perm := analyzer.lint_perm (.ofTree path tree)
  have wellFormed :
      ∀ problem ∈ (analyzer.lint (.ofTree path tree)).problems,
        analyzer.WellFormed (.ofTree path tree) problem := by
    intro problem isFound
    obtain ⟨rule, isRule, isProblem⟩ := List.mem_flatMap.mp (perm.subset isFound)
    obtain ⟨runs, token, -, reports⟩ :=
      exists_report parsed (ofBuiltin.areBuiltin rule isRule) isProblem
    exact wellFormed_of_reports parsed isRule runs reports
  have offsetsDiffer :
      (analyzer.lint (.ofTree path tree)).problems.Pairwise fun earlier later =>
        earlier.start.offset ≠ later.start.offset :=
    perm.symm.pairwise (markedProblems_pairwise parsed ofBuiltin) Ne.symm
  refine ⟨wellFormed, ((analyzer.lint_inOrder _).and offsetsDiffer).imp_of_mem ?_⟩
  intro earlier later isEarlier isLater ⟨inOrder, differs⟩
  have earlierFormed := wellFormed earlier isEarlier
  have laterFormed := wellFormed later isLater
  have inside : earlier.start.offset ≤ tree.source.utf8ByteSize :=
    Nat.le_of_lt (Nat.lt_of_le_of_lt earlierFormed.start_le_stop earlierFormed.stop_lt_length)
  exact Problem.offset_lt_of_mayPrecede earlierFormed.start_eq laterFormed.start_eq inside differs
    inOrder

/-- The type, its field and the value of the field are reported by three rules. -/
theorem lint_wellFormed_struct :
    ∃ tree analyzer,
      SyntaxTree.parse "const my_t = struct { Size: u8 = undefined };" = .ok tree ∧
        build "/" { rules := Rule.builtin } = .ok analyzer ∧
          (analyzer.lint (.ofTree "a.zig" tree)).problems.length = 3 ∧
            (∀ problem ∈ (analyzer.lint (.ofTree "a.zig" tree)).problems,
                analyzer.WellFormed (.ofTree "a.zig" tree) problem) ∧
              (analyzer.lint (.ofTree "a.zig" tree)).problems.Pairwise fun earlier later =>
                earlier.start.offset < later.start.offset := by
  have lengthEq :
      ((SyntaxTree.parse "const my_t = struct { Size: u8 = undefined };").toOption.bind
        fun tree => (build "/" { rules := Rule.builtin }).toOption.map fun analyzer =>
          (analyzer.rules.flatMap (analyzer.markedProblems (.ofTree "a.zig" tree))).length) =
        some 3 := by
    decide +kernel
  obtain ⟨tree, hasTree, lengthEq⟩ := Option.bind_eq_some_iff.mp lengthEq
  obtain ⟨analyzer, hasAnalyzer, lengthEq⟩ := Option.map_eq_some_iff.mp lengthEq
  have parsed := eq_ok_of_toOption hasTree
  have built := eq_ok_of_toOption hasAnalyzer
  exact ⟨tree, analyzer, parsed, built, (analyzer.lint_perm _).length_eq.trans lengthEq,
    lint_wellFormed parsed (fun _ isBuiltin => isBuiltin) built⟩

end Analyzer

end ZigLint
