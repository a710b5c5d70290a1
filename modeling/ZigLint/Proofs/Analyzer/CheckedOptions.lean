import ZigLint.Proofs.Analyzer.RuleIsolation

namespace ZigLint

/-!
# Checked options

A built-in rule that is run on a table which it rejects goes by its default
options. This never happens in an analyzer that was built: building refuses a
plan with an enabled rule whose table cannot be decoded, and the rules that run
are enabled ones. The first such rule of the plan is the one that is named.
-/

section Checks

variable {check : α → Except ε Unit} {items : List α}

theorem forM_cons_eq
    (first : α)
    (rest : List α) :
    (first :: rest).forM check = check first >>= fun _ => rest.forM check :=
  rfl

/-- Checks that all pass have passed one by one. -/
theorem eq_ok_of_forM
    {item : α}
    (checked : items.forM check = .ok ())
    (member : item ∈ items) :
    check item = .ok () := by
  induction items with
  | nil => cases member
  | cons first rest inductionHypothesis =>
      rw [forM_cons_eq] at checked
      obtain ⟨_, firstChecked, restChecked⟩ := bind_eq_ok_iff.mp checked
      rcases List.mem_cons.mp member with rfl | inRest
      · exact firstChecked
      · exact inductionHypothesis restChecked inRest

/-- Checks that fail stop at the first item that fails. -/
theorem exists_first_of_forM
    {fault : ε}
    (failed : items.forM check = .error fault) :
    ∃ before item after,
      items = before ++ item :: after ∧
        (∀ earlier ∈ before, check earlier = .ok ()) ∧ check item = .error fault := by
  induction items with
  | nil => cases failed
  | cons first rest inductionHypothesis =>
      rw [forM_cons_eq] at failed
      cases checked : check first with
      | error firstFault =>
          rw [checked] at failed
          cases failed
          exact ⟨[], first, rest, rfl, nofun, checked⟩
      | ok _ =>
          rw [checked] at failed
          obtain ⟨before, item, after, rfl, allPass, isFault⟩ := inductionHypothesis failed
          refine ⟨first :: before, item, after, rfl, fun earlier member => ?_, isFault⟩
          rcases List.mem_cons.mp member with rfl | isBefore
          · exact checked
          · exact allPass earlier isBefore

end Checks

namespace Rule

section OfFields

variable
  {Options : Type}
  {id description : String}
  {defaultSeverity : Severity}
  {fields : List (OptionField Options)}
  {defaults : Options}
  {check : Options → Severity → Document → List Problem}

/-- The table of the options can be decoded, and the rule checks by what it decodes to. -/
def RunsDecoded
    (rule : Rule)
    (options : RuleOptions)
    (fields : List (OptionField Options))
    (defaults : Options)
    (check : Options → Severity → Document → List Problem) :
    Prop :=
  ∃ decoded,
    OptionField.decode fields defaults options.table = .ok decoded ∧
      ∀ document, rule.problems options document = check decoded options.severity document

/-- A rule that reads its options by fields runs on them exactly if it accepts their table. -/
theorem runsDecoded_ofFields_iff
    {options : RuleOptions} :
    (ofFields id description defaultSeverity fields defaults check).RunsDecoded options fields
        defaults check ↔
      (ofFields id description defaultSeverity fields defaults check).validate options.table =
        .ok () := by
  simp only [RunsDecoded, ofFields]
  cases OptionField.decode fields defaults options.table with
  | error fault => simp [bind, Except.bind]
  | ok decoded => simp [bind, Except.bind, pure, Except.pure, Except.toOption]

end OfFields

/-- A built-in rule runs on what the table of its options says, not on its defaults instead. -/
inductive Decodes (options : RuleOptions) : Rule → Prop where
  | declarationNaming :
      DeclarationNaming.rule.RunsDecoded options DeclarationStyles.fields {}
        DeclarationNaming.check →
      Decodes options DeclarationNaming.rule
  | fieldNaming :
      FieldNaming.rule.RunsDecoded options FieldStyles.fields {} FieldNaming.check →
      Decodes options FieldNaming.rule
  | noUndefined :
      NoUndefined.rule.RunsDecoded options UndefinedExemptions.fields {} NoUndefined.check →
      Decodes options NoUndefined.rule

theorem decodes_iff
    {rule : Rule}
    {options : RuleOptions}
    (isBuiltin : rule ∈ builtin) :
    Decodes options rule ↔ rule.validate options.table = .ok () := by
  constructor
  · rintro (decoded | decoded | decoded) <;> exact runsDecoded_ofFields_iff.mp decoded
  · intro accepted
    simp only [builtin, List.mem_cons, List.not_mem_nil, or_false] at isBuiltin
    rcases isBuiltin with rfl | rfl | rfl
    · exact .declarationNaming (runsDecoded_ofFields_iff.mpr accepted)
    · exact .fieldNaming (runsDecoded_ofFields_iff.mpr accepted)
    · exact .noUndefined (runsDecoded_ofFields_iff.mpr accepted)

end Rule

/-- What a rule of the plan would be run with. -/
def AnalyzerPlan.ruleOptions (plan : AnalyzerPlan) (rule : Rule) : RuleOptions :=
  plan.config.ruleOptions rule.id rule.defaultSeverity

/-- The plan enables the rule with a table of options that cannot be decoded. -/
def AnalyzerPlan.Misconfigures (plan : AnalyzerPlan) (rule : Rule) : Prop :=
  plan.config.isEnabled rule.id = true ∧ ¬ Rule.Decodes (plan.ruleOptions rule) rule

namespace Analyzer

variable
  {workingDirectory : String}
  {plan : AnalyzerPlan}
  {analyzer : Analyzer}
  {rule : Rule}

/-- The check of a rule fails exactly if the plan misconfigures the rule, and it says so. -/
theorem checkRule_eq_error_iff
    {fault : PlanError}
    (isBuiltin : rule ∈ Rule.builtin) :
    checkRule plan.config rule = .error fault ↔
      plan.Misconfigures rule ∧
        ∃ error,
          rule.validate (plan.ruleOptions rule).table = .error error ∧
            fault = .invalidOptions { ruleId := rule.id, error } := by
  rw [AnalyzerPlan.Misconfigures, Rule.decodes_iff isBuiltin, checkRule, Rule.checkOptions,
    AnalyzerPlan.ruleOptions]
  cases plan.config.isEnabled rule.id with
  | false => simp
  | true =>
      cases rule.validate (plan.config.ruleOptions rule.id rule.defaultSeverity).table with
      | ok _ => simp
      | error error => simp [eq_comm]

theorem checkRule_eq_ok_iff
    (isBuiltin : rule ∈ Rule.builtin) :
    checkRule plan.config rule = .ok () ↔ ¬ plan.Misconfigures rule := by
  rw [AnalyzerPlan.Misconfigures, Rule.decodes_iff isBuiltin, checkRule, Rule.checkOptions,
    AnalyzerPlan.ruleOptions]
  cases plan.config.isEnabled rule.id with
  | false => simp
  | true =>
      cases rule.validate (plan.config.ruleOptions rule.id rule.defaultSeverity).table with
      | ok _ => simp
      | error error => simp

/-- A plan that is built has passed the checks of its rules. -/
theorem checks_of_build
    (built : build workingDirectory plan = .ok analyzer) :
    plan.rules.forM (checkRule plan.config) = .ok () := by
  unfold build at built
  split at built
  · cases built
  · obtain ⟨_, -, built⟩ := bind_eq_ok_iff.mp built
    obtain ⟨_, checked, -⟩ := bind_eq_ok_iff.mp built
    exact checked

/-- A plan with a provider and rules of different ids fails as the checks of its rules do. -/
theorem build_eq_error
    {fault : PlanError}
    (hasProvider : plan.hasProvider = true)
    (idsNodup : (plan.rules.map Rule.id).Nodup)
    (failed : plan.rules.forM (checkRule plan.config) = .error fault) :
    build workingDirectory plan = .error fault := by
  rw [build, hasProvider, checkIds_eq_ok_iff.mpr idsNodup, failed]
  rfl

/--
No rule runs on its default options in place of those of its table.

In an analyzer that was built from built-in rules, the table of every rule that
runs is decoded, and the rule goes by what it says. A plan that misconfigures a
rule is refused, and the refusal names the first such rule, provided that the
plan has a provider and does not repeat a rule.
-/
theorem build_decodes
    (workingDirectory : String)
    (areBuiltin : ∀ rule ∈ plan.rules, rule ∈ Rule.builtin) :
    (∀ analyzer, build workingDirectory plan = .ok analyzer →
        ∀ rule ∈ analyzer.rules, analyzer.runs rule = true →
          Rule.Decodes (analyzer.ruleOptions rule) rule) ∧
      (plan.hasProvider = true →
        (plan.rules.map Rule.id).Nodup →
          (∃ rule ∈ plan.rules, plan.Misconfigures rule) →
            ∃ before rule after error,
              plan.rules = before ++ rule :: after ∧
                (∀ earlier ∈ before, ¬ plan.Misconfigures earlier) ∧
                  plan.Misconfigures rule ∧
                    rule.validate (plan.ruleOptions rule).table = .error error ∧
                      build workingDirectory plan =
                        .error (.invalidOptions { ruleId := rule.id, error })) := by
  constructor
  · intro analyzer built rule isRule runs
    rw [(rules_of_build built).1] at isRule
    have checked := eq_ok_of_forM (checks_of_build built) isRule
    have configEq := config_of_build built
    rw [Analyzer.runs, Bool.and_eq_true, configEq] at runs
    rw [Analyzer.ruleOptions, configEq]
    exact Classical.not_not.mp
      (not_and.mp ((checkRule_eq_ok_iff (areBuiltin rule isRule)).mp checked) runs.1)
  · rintro hasProvider idsNodup ⟨wrong, isRule, misconfigured⟩
    cases checked : plan.rules.forM (checkRule plan.config) with
    | ok _ =>
        have passes := eq_ok_of_forM checked isRule
        exact ((checkRule_eq_ok_iff (areBuiltin wrong isRule)).mp passes misconfigured).elim
    | error fault =>
        obtain ⟨before, rule, after, rulesEq, allPass, fails⟩ := exists_first_of_forM checked
        have isFirst : rule ∈ plan.rules := by simp [rulesEq]
        obtain ⟨isWrong, error, rejected, rfl⟩ :=
          (checkRule_eq_error_iff (areBuiltin rule isFirst)).mp fails
        refine ⟨before, rule, after, error, rulesEq, fun earlier isBefore => ?_, isWrong, rejected,
          build_eq_error hasProvider idsNodup checked⟩
        have isEarlier : earlier ∈ plan.rules := by simp [rulesEq, isBefore]
        exact (checkRule_eq_ok_iff (areBuiltin earlier isEarlier)).mp (allPass earlier isBefore)

/-- Built-in rules, with a key that is no option in the table of one of them. -/
def misspelledPlan (severity : Severity) : AnalyzerPlan where
  rules := Rule.builtin
  config := {
    rules := [
      (DeclarationNaming.id, ⟨none, none, [("function", .string "snake_case")]⟩),
      (FieldNaming.id, ⟨none, some severity, [("struct", .string "snake_case")]⟩)
    ]
  }

/-- The misspelled key does no harm while its rule is off; otherwise building names this rule. -/
theorem build_decodes_misspelled :
    (∃ analyzer,
      build "/" (misspelledPlan .off) = .ok analyzer ∧
        analyzer.runs DeclarationNaming.rule = true ∧
          Rule.Decodes (analyzer.ruleOptions DeclarationNaming.rule) DeclarationNaming.rule) ∧
      (misspelledPlan .error).Misconfigures FieldNaming.rule ∧
        ∃ error,
          build "/" (misspelledPlan .error) =
            .error (.invalidOptions { ruleId := FieldNaming.id, error }) := by
  have areBuiltin :
      ∀ severity, ∀ rule ∈ (misspelledPlan severity).rules, rule ∈ Rule.builtin :=
    fun _ _ isRule => isRule
  have misconfigured : (misspelledPlan .error).Misconfigures FieldNaming.rule := by
    refine ⟨by decide, ?_⟩
    rw [Rule.decodes_iff (by simp [Rule.builtin])]
    intro accepted
    cases accepted
  refine ⟨?_, misconfigured, ?_⟩
  · have runsEq :
        ((build "/" (misspelledPlan .off)).toOption.map fun analyzer =>
          analyzer.runs DeclarationNaming.rule) = some true := by
      decide +kernel
    obtain ⟨analyzer, hasAnalyzer, runs⟩ := Option.map_eq_some_iff.mp runsEq
    have built := eq_ok_of_toOption hasAnalyzer
    refine ⟨analyzer, built, runs, (build_decodes "/" (areBuiltin _)).1 analyzer built _ ?_ runs⟩
    rw [(rules_of_build built).1]
    exact List.mem_cons_self
  · obtain ⟨before, rule, after, error, rulesEq, -, isWrong, -, failed⟩ :=
      (build_decodes "/" (areBuiltin _)).2 rfl (by decide)
        ⟨FieldNaming.rule, by simp [misspelledPlan, Rule.builtin], misconfigured⟩
    have isRule : rule ∈ Rule.builtin := by
      have : rule ∈ (misspelledPlan .error).rules := by simp [rulesEq]
      exact this
    have accepted_elim :
        rule.validate ((misspelledPlan .error).ruleOptions rule).table = .ok () → False :=
      fun accepted => isWrong.2 ((Rule.decodes_iff isRule).mpr accepted)
    simp only [Rule.builtin, List.mem_cons, List.not_mem_nil, or_false] at isRule
    rcases isRule with rfl | rfl | rfl
    · exact (accepted_elim rfl).elim
    · exact ⟨error, failed⟩
    · exact (accepted_elim rfl).elim

end Analyzer

end ZigLint
