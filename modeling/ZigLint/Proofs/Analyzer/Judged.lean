import ZigLint.Proofs.Rule.Requirements

namespace ZigLint

/-!
# Judged names

An analyzer that was built from built-in rules judges a list of names, all of
them different. The fixes of the problems that count are the renamings of those
judged names that break their style and that no comment exempts.
-/

theorem bind_eq_ok_iff
    {first : Except ε α}
    {next : α → Except ε β}
    {result : β} :
    first >>= next = .ok result ↔ ∃ value, first = .ok value ∧ next value = .ok result := by
  cases first with
  | error fault => simp [bind, Except.bind]
  | ok value => simp [bind, Except.bind]

namespace Analyzer

variable {plan : AnalyzerPlan} {workingDirectory : String} {analyzer : Analyzer}

theorem firstRepeated?_eq_none_iff
    {seen ids : List String} :
    firstRepeated? seen ids = none ↔ ids.Nodup ∧ ∀ id ∈ ids, id ∉ seen := by
  induction ids generalizing seen with
  | nil => simp [firstRepeated?]
  | cons id rest inductionHypothesis =>
      rw [firstRepeated?]
      by_cases isSeen : id ∈ seen
      · simp [isSeen]
      · simp only [List.contains_eq_mem, isSeen, decide_false, Bool.false_eq_true, if_false,
          inductionHypothesis, List.nodup_cons, List.mem_cons, not_or, forall_eq_or_imp,
          not_false_eq_true, true_and]
        grind

/-- The check of ids accepts exactly the rules of which no two share an id. -/
theorem checkIds_eq_ok_iff
    {rules : List Rule} :
    checkIds rules = .ok () ↔ (rules.map Rule.id).Nodup := by
  have noneRepeated :
      firstRepeated? [] (rules.map Rule.id) = none ↔ (rules.map Rule.id).Nodup := by
    rw [firstRepeated?_eq_none_iff]
    exact and_iff_left fun _ _ => List.not_mem_nil
  rw [checkIds, ← noneRepeated]
  cases firstRepeated? [] (rules.map Rule.id) <;> simp

/-- A built analyzer has the rules of its plan, and no two of them share an id. -/
theorem rules_of_build
    (built : build workingDirectory plan = .ok analyzer) :
    analyzer.rules = plan.rules ∧ (plan.rules.map Rule.id).Nodup := by
  unfold build at built
  split at built
  · cases built
  · obtain ⟨_, idsChecked, built⟩ := bind_eq_ok_iff.mp built
    obtain ⟨_, -, built⟩ := bind_eq_ok_iff.mp built
    obtain ⟨exclude, -, built⟩ := bind_eq_ok_iff.mp built
    cases built
    exact ⟨rfl, checkIds_eq_ok_iff.mp idsChecked⟩

end Analyzer

/-- The fix of a problem, if the problem counts. -/
def Document.activeFix? (document : Document) (problem : Problem) : Option Fix :=
  if (Analyzer.markSuppressed document problem).isActive then problem.fix? else none

theorem Document.activeFix?_eq_some_iff
    {document : Document}
    {problem : Problem}
    {fix : Fix} :
    document.activeFix? problem = some fix ↔
      (Analyzer.markSuppressed document problem).isActive = true ∧ problem.fix? = some fix := by
  simp [activeFix?]

namespace Analyzer

variable {analyzer : Analyzer} {document : Document}

/-- What one rule of an analyzer requires of a document: nothing if it does not run. -/
def requirements (analyzer : Analyzer) (document : Document) (rule : Rule) :
    List NameRequirement :=
  if analyzer.runs rule then
    rule.requirements (analyzer.ruleOptions rule).table document
  else
    []

/-- The names that the rules of an analyzer judge in a document, with the rule of each. -/
def judged (analyzer : Analyzer) (document : Document) : List (Rule × NameRequirement) :=
  analyzer.rules.flatMap fun rule => (analyzer.requirements document rule).map (Prod.mk rule)

/-- The fix of a judged name, if it breaks its requirement and the problem counts. -/
def rename? (analyzer : Analyzer) (document : Document) (judgement : Rule × NameRequirement) :
    Option Fix :=
  (document.brokenRequirement? judgement.1.id (analyzer.ruleOptions judgement.1).severity
    judgement.2).bind document.activeFix?

/-- The fixes that count are those of judged names, in some order. -/
theorem activeFixes_perm
    (areBuiltin : ∀ rule ∈ analyzer.rules, rule ∈ Rule.builtin) :
    ((analyzer.lint document).activeProblems.filterMap Problem.fix?).Perm
      ((analyzer.judged document).filterMap (analyzer.rename? document)) := by
  have sortedPerm := List.mergeSort_perm
    ((analyzer.rules.flatMap (analyzer.ruleProblems document)).map (markSuppressed document))
    fun left right => !right.precedes left
  refine ((sortedPerm.filter _).filterMap _).trans ?_
  rw [List.filterMap_filter, List.filterMap_map, List.filterMap_flatMap, judged,
    List.filterMap_flatMap]
  refine .of_eq ?_
  rw [List.flatMap_def, List.flatMap_def]
  refine congrArg List.flatten (List.map_congr_left fun rule isRule => ?_)
  show (analyzer.ruleProblems document rule).filterMap document.activeFix? = _
  rw [ruleProblems, requirements]
  split
  · have onlyFixes : ∀ problem, problem.fix? = none → document.activeFix? problem = none := by
      intro problem noFix
      simp [Document.activeFix?, noFix]
    rw [Rule.filterMap_problems (areBuiltin rule isRule) onlyFixes, List.filterMap_map]
    rfl
  · rfl

theorem mem_judged
    {rule : Rule}
    {requirement : NameRequirement} :
    (rule, requirement) ∈ analyzer.judged document ↔
      rule ∈ analyzer.rules ∧ requirement ∈ analyzer.requirements document rule := by
  simp [judged]

/-- A problem that counts and has a fix is that of a judged name. -/
theorem exists_judgement
    {problem : Problem}
    {fix : Fix}
    (areBuiltin : ∀ rule ∈ analyzer.rules, rule ∈ Rule.builtin)
    (isActive : problem ∈ (analyzer.lint document).activeProblems)
    (hasFix : problem.fix? = some fix) :
    ∃ judgement ∈ analyzer.judged document,
      problem.ruleId = judgement.1.id ∧ analyzer.rename? document judgement = some fix := by
  obtain ⟨isFound, counts⟩ := List.mem_filter.mp isActive
  obtain ⟨original, isOriginal, rfl⟩ := List.mem_map.mp ((List.mergeSort_perm _ _).subset isFound)
  obtain ⟨rule, isRule, isProblem⟩ := List.mem_flatMap.mp isOriginal
  unfold ruleProblems at isProblem
  split at isProblem
  · rename_i runs
    obtain ⟨requirement, required, broken⟩ :=
      Rule.exists_requirement (areBuiltin rule isRule) isProblem hasFix
    refine ⟨(rule, requirement), mem_judged.mpr ⟨isRule, ?_⟩, ?_, ?_⟩
    · rwa [requirements, if_pos runs]
    · exact (Document.problem_of_brokenRequirement? broken).1
    · exact Option.bind_eq_some_iff.mpr
        ⟨original, broken, Document.activeFix?_eq_some_iff.mpr ⟨counts, hasFix⟩⟩
  · cases isProblem

theorem mem_requirements
    {rule : Rule}
    {requirement : NameRequirement}
    (member : requirement ∈ analyzer.requirements document rule) :
    analyzer.runs rule = true ∧
      requirement ∈ rule.requirements (analyzer.ruleOptions rule).table document := by
  unfold requirements at member
  split at member
  · rename_i runs
    exact ⟨runs, member⟩
  · cases member

/-- No name is judged twice. -/
theorem judged_nodup
    {source : String}
    (parsed : SyntaxTree.parse source = .ok document.tree)
    (idsNodup : (analyzer.rules.map Rule.id).Nodup) :
    ((analyzer.judged document).map fun judgement => judgement.2.token).Nodup := by
  have judgedEq :
      (analyzer.judged document).map (fun judgement => judgement.2.token) =
        analyzer.rules.flatMap fun rule =>
          (analyzer.requirements document rule).map NameRequirement.token := by
    simp only [judged, List.map_flatMap, List.map_map]
    rfl
  rw [judgedEq, List.Nodup, List.pairwise_flatMap]
  constructor
  · intro rule _
    rw [requirements]
    split
    · exact Rule.tokens_nodup parsed
    · exact .nil
  · refine List.Pairwise.imp ?_ (List.pairwise_map.mp idsNodup)
    intro rule other distinct token isJudged otherToken isOtherJudged sameToken
    obtain ⟨requirement, required, rfl⟩ := List.mem_map.mp isJudged
    obtain ⟨otherRequirement, otherRequired, rfl⟩ := List.mem_map.mp isOtherJudged
    exact distinct (Rule.judge_unique parsed (mem_requirements required).2
      (mem_requirements otherRequired).2 sameToken)

/-- The fix corrects a judged name, and no comment exempts the name. -/
structure Renames
    (document : Document)
    (judgement : Rule × NameRequirement)
    (fix : Fix) :
    Prop
    extends document.Corrects judgement.2 fix where
  notSuppressed :
    document.suppressions.suppresses judgement.1.id
      (document.tokenLocation judgement.2.token).line = false

/--
A judged name is renamed exactly if it is not quoted, breaks its style and can be
changed, and no comment exempts it.
-/
theorem rename?_eq_some_iff
    {judgement : Rule × NameRequirement}
    {fix : Fix}
    (runs : analyzer.runs judgement.1 = true) :
    analyzer.rename? document judgement = some fix ↔ Renames document judgement fix := by
  have notOff : ((analyzer.ruleOptions judgement.1).severity != .off) = true := by
    simp only [Analyzer.runs, Bool.and_eq_true] at runs
    exact runs.2
  have isActive_iff :
      ∀ problem,
        document.brokenRequirement? judgement.1.id (analyzer.ruleOptions judgement.1).severity
            judgement.2 = some problem →
          ((markSuppressed document problem).isActive = true ↔
            document.suppressions.suppresses judgement.1.id
              (document.tokenLocation judgement.2.token).line = false) := by
    intro problem broken
    obtain ⟨ruleEq, severityEq, startEq⟩ := Document.problem_of_brokenRequirement? broken
    simp only [Problem.isActive, markSuppressed, Document.suppresses, ruleEq, severityEq, startEq,
      notOff, Bool.and_true, Bool.not_eq_true']
  constructor
  · intro renamed
    obtain ⟨problem, broken, fixEq⟩ := Option.bind_eq_some_iff.mp renamed
    obtain ⟨isActive, hasFix⟩ := Document.activeFix?_eq_some_iff.mp fixEq
    exact ⟨Document.fix_of_brokenRequirement?_iff.mp
      (Option.bind_eq_some_iff.mpr ⟨problem, broken, hasFix⟩),
      (isActive_iff problem broken).mp isActive⟩
  · intro renames
    obtain ⟨problem, broken, hasFix⟩ := Option.bind_eq_some_iff.mp
      (Document.fix_of_brokenRequirement?_iff.mpr renames.toCorrects)
    refine Option.bind_eq_some_iff.mpr ⟨problem, broken, Document.activeFix?_eq_some_iff.mpr ?_⟩
    exact ⟨(isActive_iff problem broken).mpr renames.notSuppressed, hasFix⟩

end Analyzer

end ZigLint
