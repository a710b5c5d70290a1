import ZigLint.Proofs.Analyzer.RuleOrder

namespace ZigLint

/-!
# Isolation of rules

The settings of a rule decide about the problems of this rule only. Leaving out
the problems of one rule commutes with sorting, and comments are judged problem
by problem, so what the other rules report is the same under every setting of
that rule, in the same order and with the same notes. Switching the rule off
leaves exactly the problems of the others.
-/

/-- The result without the problems of one rule. -/
def LintResult.without (result : LintResult) (ruleId : String) : LintResult :=
  { result with problems := result.problems.filter fun problem => problem.ruleId != ruleId }

/-- Problems can be left out before sorting or after it. -/
theorem LintResult.sort_filter
    (result : LintResult)
    (keeps : Problem → Bool) :
    (LintResult.sort { result with problems := result.problems.filter keeps }).problems =
      result.sort.problems.filter keeps := by
  refine eq_of_filter_ties_eq (sort_pairwise _) (result.sort_pairwise.filter keeps) ?_
  intro problem
  calc
    _ = (result.problems.filter keeps).filter problem.ties := filter_ties_sort _ problem
    _ = (result.problems.filter problem.ties).filter keeps := List.filter_comm ..
    _ = (result.sort.problems.filter problem.ties).filter keeps := by rw [filter_ties_sort]
    _ = (result.sort.problems.filter keeps).filter problem.ties := List.filter_comm ..

theorem LintResult.without_sort
    (result : LintResult)
    (ruleId : String) :
    result.sort.without ruleId = (result.without ruleId).sort :=
  congrArg (LintResult.mk result.filePath) (result.sort_filter _).symm

namespace Config

variable {first second : Config} {id : String}

/-- A rule is switched off by its own settings only. -/
theorem isEnabled_eq_false_iff :
    first.isEnabled id = false ↔
      ∃ settings, first.rule? id = some settings ∧
        (settings.enabled? = some false ∨ settings.severity? = some .off) := by
  rw [isEnabled]
  cases first.rule? id with
  | none => simp
  | some settings =>
      obtain ⟨enabled?, severity?, options⟩ := settings
      rcases enabled? with _ | _ | _ <;> simp

/-- Settings that agree on a rule let it run with the same options or not at all. -/
theorem isEnabled_congr
    (agree : second.rule? id = first.rule? id) :
    second.isEnabled id = first.isEnabled id := by
  rw [isEnabled, isEnabled, agree]

theorem ruleOptions_congr
    (agree : second.rule? id = first.rule? id)
    (default : Severity) :
    second.ruleOptions id default = first.ruleOptions id default := by
  rw [ruleOptions, ruleOptions, severity?, severity?, agree]

end Config

namespace Analyzer

theorem config_of_build
    {workingDirectory : String}
    {plan : AnalyzerPlan}
    {analyzer : Analyzer}
    (built : build workingDirectory plan = .ok analyzer) :
    analyzer.config = plan.config := by
  unfold build at built
  split at built
  · cases built
  · obtain ⟨_, -, built⟩ := bind_eq_ok_iff.mp built
    obtain ⟨_, -, built⟩ := bind_eq_ok_iff.mp built
    obtain ⟨exclude, -, built⟩ := bind_eq_ok_iff.mp built
    cases built
    rfl

variable {analyzer first second : Analyzer} {document : Document} {ruleId : String}

/-- The problems of the other rules are what the other rules find. -/
theorem filter_ruleId_flatMap
    {rules : List Rule}
    (stamp : ∀ rule ∈ rules, rule.StampsId) :
    (rules.flatMap (analyzer.markedProblems document)).filter
        (fun problem => problem.ruleId != ruleId) =
      (rules.filter fun rule => rule.id != ruleId).flatMap (analyzer.markedProblems document) := by
  induction rules with
  | nil => rfl
  | cons rule rest inductionHypothesis =>
      have restEq :=
        inductionHypothesis fun other inRest => stamp other (List.mem_cons_of_mem _ inRest)
      have ids :
          ∀ problem ∈ analyzer.markedProblems document rule, problem.ruleId = rule.id :=
        fun _ => ruleId_of_mem_markedProblems (stamp rule List.mem_cons_self)
      rw [List.flatMap_cons, List.filter_append, restEq]
      by_cases sameId : rule.id = ruleId
      · have noneKept :
            (analyzer.markedProblems document rule).filter
              (fun problem => problem.ruleId != ruleId) = [] := by
          refine List.filter_eq_nil_iff.mpr fun problem member => ?_
          simp [ids problem member, sameId]
        rw [noneKept, List.filter_cons_of_neg (by simpa using sameId), List.nil_append]
      · have allKept :
            (analyzer.markedProblems document rule).filter
              (fun problem => problem.ruleId != ruleId) =
              analyzer.markedProblems document rule := by
          refine List.filter_eq_self.mpr fun problem member => ?_
          simp [ids problem member, sameId]
        rw [allKept, List.filter_cons_of_pos (by simpa using sameId), List.flatMap_cons]

/-- Without the problems of a rule, linting is linting with the other rules. -/
theorem without_lint
    (stamp : ∀ rule ∈ analyzer.rules, rule.StampsId) :
    (analyzer.lint document).without ruleId =
      LintResult.sort {
        filePath := document.path
        problems :=
          (analyzer.rules.filter fun rule => rule.id != ruleId).flatMap
            (analyzer.markedProblems document)
      } := by
  rw [lint_eq, LintResult.without_sort, LintResult.without, filter_ruleId_flatMap stamp]

/-- Settings that agree on a rule let it find the same. -/
theorem markedProblems_congr
    {rule : Rule}
    (agree : second.config.rule? rule.id = first.config.rule? rule.id) :
    second.markedProblems document rule = first.markedProblems document rule := by
  have sameOptions : second.ruleOptions rule = first.ruleOptions rule :=
    Config.ruleOptions_congr agree _
  have sameRuns : second.runs rule = first.runs rule := by
    rw [runs, runs, sameOptions, Config.isEnabled_congr agree]
  rw [markedProblems, markedProblems, ruleProblems, ruleProblems, sameRuns, sameOptions]

/-- A rule that is switched off has no problems to leave out. -/
theorem without_lint_of_disabled
    (stamp : ∀ rule ∈ analyzer.rules, rule.StampsId)
    (disabled : analyzer.config.isEnabled ruleId = false) :
    (analyzer.lint document).without ruleId = analyzer.lint document := by
  have keepsAll :
      ∀ problem ∈ (analyzer.lint document).problems, (problem.ruleId != ruleId) = true := by
    intro problem member
    rw [lint_eq] at member
    obtain ⟨rule, isRule, isFound⟩ := List.mem_flatMap.mp ((LintResult.sort_perm _).subset member)
    have sameId := ruleId_of_mem_markedProblems (stamp rule isRule) isFound
    rw [bne_iff_ne, sameId]
    rintro rfl
    rw [markedProblems, ruleProblems, runs, disabled] at isFound
    cases isFound
  rw [LintResult.without, List.filter_eq_self.mpr keepsAll]

/--
The settings of one rule are no matter to the others.

Two analyzers with the same rules, whose settings agree on every rule but one,
report the same problems of all other rules, in the same order and with the same
notes on comments. If the second one switches that rule off, this is all it
reports.
-/
theorem lint_isolates_rule
    (sameRules : second.rules = first.rules)
    (stamp : ∀ rule ∈ first.rules, rule.StampsId)
    (agree : ∀ id, id ≠ ruleId → second.config.rule? id = first.config.rule? id)
    (document : Document) :
    (second.lint document).without ruleId = (first.lint document).without ruleId ∧
      ∀ settings, second.config.rule? ruleId = some settings →
        settings.enabled? = some false ∨ settings.severity? = some .off →
          second.lint document = (first.lint document).without ruleId := by
  have stampSecond : ∀ rule ∈ second.rules, rule.StampsId := by
    rw [sameRules]
    exact stamp
  have sameOthers :
      (second.lint document).without ruleId = (first.lint document).without ruleId := by
    rw [without_lint stampSecond, without_lint stamp, sameRules]
    have sameFound :
        (first.rules.filter fun rule => rule.id != ruleId).flatMap
            (second.markedProblems document) =
          (first.rules.filter fun rule => rule.id != ruleId).flatMap
            (first.markedProblems document) := by
      refine List.flatMap_congr fun rule isOther => markedProblems_congr (agree rule.id ?_)
      simpa using (List.mem_filter.mp isOther).2
    rw [sameFound]
  refine ⟨sameOthers, fun settings found switchedOff => ?_⟩
  have disabled := Config.isEnabled_eq_false_iff.mpr ⟨settings, found, switchedOff⟩
  rw [← without_lint_of_disabled stampSecond disabled, sameOthers]

/-- With the rule on names switched off, what is left is the use of `undefined`. -/
theorem lint_isolates_rule_names_off :
    ∃ tree first second,
      SyntaxTree.parse "const A_b = undefined;" = .ok tree ∧
        build "/" { rules := Rule.builtin } = .ok first ∧
          build "/" {
            rules := Rule.builtin
            config := { rules := [(DeclarationNaming.id, ⟨some false, none, []⟩)] }
          } = .ok second ∧
            (first.rules.flatMap (first.ruleProblems (.ofTree "a.zig" tree))).map
                Problem.ruleId = [DeclarationNaming.id, NoUndefined.id] ∧
              second.lint (.ofTree "a.zig" tree) =
                (first.lint (.ofTree "a.zig" tree)).without DeclarationNaming.id := by
  let namesOff : Config := { rules := [(DeclarationNaming.id, ⟨some false, none, []⟩)] }
  have idsEq :
      ((SyntaxTree.parse "const A_b = undefined;").toOption.bind fun tree =>
        (build "/" { rules := Rule.builtin }).toOption.bind fun first =>
          (build "/" { rules := Rule.builtin, config := namesOff }).toOption.map fun _ =>
            (first.rules.flatMap (first.ruleProblems (.ofTree "a.zig" tree))).map
              Problem.ruleId) =
        some [DeclarationNaming.id, NoUndefined.id] := by
    decide +kernel
  obtain ⟨tree, hasTree, idsEq⟩ := Option.bind_eq_some_iff.mp idsEq
  obtain ⟨first, hasFirst, idsEq⟩ := Option.bind_eq_some_iff.mp idsEq
  obtain ⟨second, hasSecond, idsEq⟩ := Option.map_eq_some_iff.mp idsEq
  have builtFirst := eq_ok_of_toOption hasFirst
  have builtSecond := eq_ok_of_toOption hasSecond
  have rulesFirst := (rules_of_build builtFirst).1
  have rulesSecond := (rules_of_build builtSecond).1
  have configFirst := config_of_build builtFirst
  have configSecond := config_of_build builtSecond
  have stamp : ∀ rule ∈ first.rules, rule.StampsId := by
    rw [rulesFirst]
    exact fun _ => Rule.stampsId_of_builtin
  have agree :
      ∀ id, id ≠ DeclarationNaming.id → second.config.rule? id = first.config.rule? id := by
    intro id isOther
    rw [configFirst, configSecond]
    simp [Config.rule?, namesOff, isOther.symm]
  have isolated := lint_isolates_rule (rulesSecond.trans rulesFirst.symm) stamp agree
  refine ⟨tree, first, second, eq_ok_of_toOption hasTree, builtFirst, builtSecond, idsEq, ?_⟩
  refine (isolated _).2 ⟨some false, none, []⟩ ?_ (.inl rfl)
  rw [configSecond]
  rfl

end Analyzer

end ZigLint
