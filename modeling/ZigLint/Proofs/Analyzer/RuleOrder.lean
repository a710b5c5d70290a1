import ZigLint.Proofs.Analyzer.Judged
import ZigLint.Proofs.Problem.Order

namespace ZigLint

/-!
# The order of rules

Rules may be registered in any order. Problems of different rules never tie, so
each class of ties comes from one rule, and sorting brings the classes into the
same order whichever rule ran first. The same problems have the same fixes.
-/

/-- Every problem that the rule reports carries the id of the rule. -/
def Rule.StampsId (rule : Rule) : Prop :=
  ∀ options document, ∀ problem ∈ rule.problems options document, problem.ruleId = rule.id

/-- The built-in rules put their own ids on their problems. -/
theorem Rule.stampsId_of_builtin
    {rule : Rule}
    (isBuiltin : rule ∈ builtin) :
    rule.StampsId := by
  simp only [builtin, List.mem_cons, List.not_mem_nil, or_false] at isBuiltin
  rcases isBuiltin with rfl | rfl | rfl
  · intro options document problem member
    change problem ∈ DeclarationNaming.check _ _ document at member
    rw [DeclarationNaming.check_eq] at member
    obtain ⟨requirement, -, broken⟩ := List.mem_filterMap.mp member
    exact (Document.problem_of_brokenRequirement? broken).1
  · intro options document problem member
    change problem ∈ FieldNaming.check _ _ document at member
    rw [FieldNaming.check_eq] at member
    obtain ⟨requirement, -, broken⟩ := List.mem_filterMap.mp member
    exact (Document.problem_of_brokenRequirement? broken).1
  · intro options document problem member
    obtain ⟨node, -, nodeProblem⟩ := List.mem_filterMap.mp member
    obtain ⟨span, -, rfl⟩ := Option.map_eq_some_iff.mp nodeProblem
    rfl

/-- Rules with different ids are found by their ids in whatever order they stand. -/
theorem Rule.filter_id_perm
    {rules others : List Rule}
    (perm : rules.Perm others)
    (idsNodup : (others.map Rule.id).Nodup)
    (id : String) :
    rules.filter (fun rule => rule.id == id) = others.filter fun rule => rule.id == id := by
  -- Neither list has two rules with the id, so there is no order to differ in.
  have at_most_one :
      ∀ {rules : List Rule}, (rules.map Rule.id).Nodup →
        (rules.filter fun rule => rule.id == id).Pairwise fun _ _ => False := by
    intro rules idsNodup
    refine ((List.pairwise_map.mp idsNodup).filter _).imp_of_mem ?_
    intro first second isFirst isSecond distinct
    have firstId : first.id = id := by simpa using (List.mem_filter.mp isFirst).2
    have secondId : second.id = id := by simpa using (List.mem_filter.mp isSecond).2
    exact distinct (firstId.trans secondId.symm)
  exact List.Perm.eq_of_pairwise (fun _ _ _ _ absurd _ => absurd.elim)
    (at_most_one ((perm.map Rule.id).nodup_iff.mpr idsNodup)) (at_most_one idsNodup)
    (perm.filter _)

namespace Analyzer

variable {analyzer : Analyzer} {document : Document}

/-- What one rule finds in a document, with notes on what comments disable. -/
def markedProblems (analyzer : Analyzer) (document : Document) (rule : Rule) : List Problem :=
  (analyzer.ruleProblems document rule).map (markSuppressed document)

theorem lint_eq
    (analyzer : Analyzer)
    (document : Document) :
    analyzer.lint document =
      LintResult.sort {
        filePath := document.path
        problems := analyzer.rules.flatMap (analyzer.markedProblems document)
      } := by
  rw [lint, List.map_flatMap]
  rfl

theorem ruleId_of_mem_markedProblems
    {rule : Rule}
    {problem : Problem}
    (stamps : rule.StampsId)
    (member : problem ∈ analyzer.markedProblems document rule) :
    problem.ruleId = rule.id := by
  obtain ⟨original, isProblem, rfl⟩ := List.mem_map.mp member
  unfold ruleProblems at isProblem
  split at isProblem
  · exact stamps _ _ original isProblem
  · cases isProblem

/-- A class of ties is found by the rules with its id. -/
theorem filter_ties_flatMap
    {rules : List Rule}
    (stamp : ∀ rule ∈ rules, rule.StampsId)
    (problem : Problem) :
    (rules.flatMap (analyzer.markedProblems document)).filter problem.ties =
      (rules.filter fun rule => rule.id == problem.ruleId).flatMap fun rule =>
        (analyzer.markedProblems document rule).filter problem.ties := by
  induction rules with
  | nil => rfl
  | cons rule rest inductionHypothesis =>
      have restEq :=
        inductionHypothesis fun other inRest => stamp other (List.mem_cons_of_mem _ inRest)
      rw [List.flatMap_cons, List.filter_append, restEq]
      by_cases sameId : rule.id = problem.ruleId
      · rw [List.filter_cons_of_pos (by simpa using sameId), List.flatMap_cons]
      · have noneTies : (analyzer.markedProblems document rule).filter problem.ties = [] := by
          refine List.filter_eq_nil_iff.mpr fun other member isTie => ?_
          have otherId := ruleId_of_mem_markedProblems (stamp rule List.mem_cons_self) member
          exact sameId (otherId.symm.trans (Problem.ties_iff.mp isTie).2.2.symm)
        rw [noneTies, List.filter_cons_of_neg (by simpa using sameId), List.nil_append]

/--
Rules with different ids that put their ids on their problems may be registered
in any order: the result of linting and the outcome of fixing stay the same.
-/
theorem lint_rules_perm
    {rules : List Rule}
    (perm : rules.Perm analyzer.rules)
    (idsNodup : (analyzer.rules.map Rule.id).Nodup)
    (stamp : ∀ rule ∈ analyzer.rules, rule.StampsId)
    (document : Document) :
    { analyzer with rules }.lint document = analyzer.lint document ∧
      { analyzer with rules }.fixDocument document = analyzer.fixDocument document := by
  have sameLint : { analyzer with rules }.lint document = analyzer.lint document := by
    have stampRules : ∀ rule ∈ rules, rule.StampsId := fun rule isRule =>
      stamp rule (perm.subset isRule)
    have sameProblems :
        ({ analyzer with rules }.lint document).problems = (analyzer.lint document).problems := by
      rw [lint_eq, lint_eq]
      refine LintResult.eq_of_filter_ties_eq (LintResult.sort_pairwise _)
        (LintResult.sort_pairwise _) fun problem => ?_
      rw [LintResult.filter_ties_sort, LintResult.filter_ties_sort, filter_ties_flatMap stampRules,
        filter_ties_flatMap stamp, Rule.filter_id_perm perm idsNodup]
      rfl
    exact congrArg (LintResult.mk document.path) sameProblems
  refine ⟨sameLint, ?_⟩
  rw [fixDocument, fixDocument, sameLint]

/-- The built-in rules in reverse order: a name and its value are reported as before. -/
theorem lint_rules_perm_reversed :
    ∃ tree analyzer,
      SyntaxTree.parse "const A_b = undefined;" = .ok tree ∧
        build "/" { rules := Rule.builtin } = .ok analyzer ∧
          (analyzer.rules.flatMap (analyzer.ruleProblems (.ofTree "a.zig" tree))).map
              Problem.ruleId = [DeclarationNaming.id, NoUndefined.id] ∧
            { analyzer with rules := Rule.builtin.reverse }.lint (.ofTree "a.zig" tree) =
                analyzer.lint (.ofTree "a.zig" tree) ∧
              { analyzer with rules := Rule.builtin.reverse }.fixDocument (.ofTree "a.zig" tree) =
                analyzer.fixDocument (.ofTree "a.zig" tree) := by
  have idsEq :
      ((SyntaxTree.parse "const A_b = undefined;").toOption.bind fun tree =>
        (build "/" { rules := Rule.builtin }).toOption.map fun analyzer =>
          (analyzer.rules.flatMap (analyzer.ruleProblems (.ofTree "a.zig" tree))).map
            Problem.ruleId) =
        some [DeclarationNaming.id, NoUndefined.id] := by
    decide +kernel
  obtain ⟨tree, hasTree, idsEq⟩ := Option.bind_eq_some_iff.mp idsEq
  obtain ⟨analyzer, hasAnalyzer, idsEq⟩ := Option.map_eq_some_iff.mp idsEq
  have built := eq_ok_of_toOption hasAnalyzer
  obtain ⟨rulesEq, idsNodup⟩ := rules_of_build built
  have perm : Rule.builtin.reverse.Perm analyzer.rules := by
    rw [rulesEq]
    exact List.reverse_perm _
  have stamp : ∀ rule ∈ analyzer.rules, rule.StampsId := by
    rw [rulesEq]
    exact fun _ => Rule.stampsId_of_builtin
  exact ⟨tree, analyzer, eq_ok_of_toOption hasTree, built, idsEq,
    lint_rules_perm perm (rulesEq ▸ idsNodup) stamp _⟩

end Analyzer

end ZigLint
