import ZigLint.Problem.Basic

namespace ZigLint

/-!
# The order of problems

Problems are ordered by line, then column, then rule. Two problems tie exactly
if they agree in all three. Sorting keeps problems that tie in the order in which
they come, so a sorted result depends on each class of ties by itself and not on
how the classes are mixed before sorting.
-/

namespace Problem

variable {left middle right : Problem}

/-- The first problem may stand before the second one in a sorted result. -/
def mayPrecede (left right : Problem) : Bool :=
  !right.precedes left

/-- Neither problem has to stand before the other. -/
def ties (left right : Problem) : Bool :=
  left.mayPrecede right && right.mayPrecede left

theorem precedes_iff :
    left.precedes right = true ↔
      left.start.line < right.start.line ∨
        left.start.line = right.start.line ∧
          (left.start.column < right.start.column ∨
            left.start.column = right.start.column ∧ left.ruleId < right.ruleId) := by
  unfold precedes
  split
  · rename_i otherLine
    simp [otherLine]
  · rename_i sameLine
    have sameLine : left.start.line = right.start.line := Decidable.of_not_not sameLine
    split
    · rename_i otherColumn
      simp [sameLine, otherColumn]
    · rename_i sameColumn
      have sameColumn : left.start.column = right.start.column := Decidable.of_not_not sameColumn
      simp [sameLine, sameColumn]

theorem mayPrecede_iff :
    left.mayPrecede right = true ↔
      left.start.line < right.start.line ∨
        left.start.line = right.start.line ∧
          (left.start.column < right.start.column ∨
            left.start.column = right.start.column ∧ left.ruleId ≤ right.ruleId) := by
  rw [mayPrecede, Bool.not_eq_true', ← Bool.not_eq_true, precedes_iff, ← String.not_lt]
  grind

theorem mayPrecede_trans
    (left middle right : Problem)
    (leftFirst : left.mayPrecede middle = true)
    (rightLast : middle.mayPrecede right = true) :
    left.mayPrecede right = true := by
  rw [mayPrecede_iff] at leftFirst rightLast ⊢
  have rules_trans : left.ruleId ≤ middle.ruleId → middle.ruleId ≤ right.ruleId →
      left.ruleId ≤ right.ruleId :=
    String.le_trans
  grind

theorem mayPrecede_total
    (left right : Problem) :
    (left.mayPrecede right || right.mayPrecede left) = true := by
  rw [Bool.or_eq_true, mayPrecede_iff, mayPrecede_iff]
  have := String.le_total left.ruleId right.ruleId
  grind

/-- Problems tie exactly if they agree in line, column and rule. -/
theorem ties_iff :
    left.ties right = true ↔
      left.start.line = right.start.line ∧
        left.start.column = right.start.column ∧ left.ruleId = right.ruleId := by
  rw [ties, Bool.and_eq_true, mayPrecede_iff, mayPrecede_iff]
  constructor
  · rintro ⟨leftFirst, rightFirst⟩
    have rules_antisymm : left.ruleId ≤ right.ruleId → right.ruleId ≤ left.ruleId →
        left.ruleId = right.ruleId :=
      String.le_antisymm
    grind
  · rintro ⟨sameLine, sameColumn, sameRule⟩
    simp [sameLine, sameColumn, sameRule]

theorem ties_refl
    (problem : Problem) :
    problem.ties problem = true := by
  simp [ties_iff]

end Problem

namespace LintResult

variable {problems others : List Problem}

/-- The problems of a sorted result are in order. -/
theorem sort_pairwise
    (result : LintResult) :
    result.sort.problems.Pairwise fun earlier later => earlier.mayPrecede later = true :=
  List.pairwise_mergeSort Problem.mayPrecede_trans Problem.mayPrecede_total _

theorem sort_perm
    (result : LintResult) :
    result.sort.problems.Perm result.problems :=
  List.mergeSort_perm _ _

/-- Sorting keeps the problems that tie with a given one, in their order. -/
theorem filter_ties_sort
    (result : LintResult)
    (problem : Problem) :
    result.sort.problems.filter problem.ties = result.problems.filter problem.ties := by
  have tied :
      (result.problems.filter problem.ties).Pairwise fun earlier later =>
        earlier.mayPrecede later = true := by
    refine List.pairwise_of_forall_mem_list fun earlier isEarlier later isLater => ?_
    obtain ⟨earlierLine, earlierColumn, earlierRule⟩ :=
      Problem.ties_iff.mp (List.mem_filter.mp isEarlier).2
    obtain ⟨laterLine, laterColumn, laterRule⟩ :=
      Problem.ties_iff.mp (List.mem_filter.mp isLater).2
    rw [Problem.mayPrecede_iff]
    exact .inr ⟨earlierLine.symm.trans laterLine, .inr ⟨earlierColumn.symm.trans laterColumn,
      Std.le_of_eq (earlierRule.symm.trans laterRule)⟩⟩
  have staysInOrder :
      (result.problems.filter problem.ties).Sublist result.sort.problems :=
    List.sublist_mergeSort Problem.mayPrecede_trans Problem.mayPrecede_total tied
      List.filter_sublist
  have staysTied := staysInOrder.filter problem.ties
  rw [List.filter_filter] at staysTied
  simp only [Bool.and_self] at staysTied
  exact (staysTied.eq_of_length (result.sort_perm.filter _).length_eq.symm).symm

/-- The first of problems in order may stand before each of them. -/
theorem first_mayPrecede
    {first problem : Problem}
    {rest : List Problem}
    (inOrder : (first :: rest).Pairwise fun earlier later => earlier.mayPrecede later = true)
    (member : problem ∈ first :: rest) :
    first.mayPrecede problem = true := by
  rcases List.mem_cons.mp member with rfl | inRest
  · simpa using Problem.mayPrecede_total problem problem
  · exact List.rel_of_pairwise_cons inOrder inRest

/-- Problems in order are determined by their classes of ties. -/
theorem eq_of_filter_ties_eq
    (inOrder : problems.Pairwise fun earlier later => earlier.mayPrecede later = true)
    (othersInOrder : others.Pairwise fun earlier later => earlier.mayPrecede later = true)
    (sameTies : ∀ problem : Problem, problems.filter problem.ties = others.filter problem.ties) :
    problems = others := by
  induction problems generalizing others with
  | nil =>
      cases others with
      | nil => rfl
      | cons other rest =>
          have := sameTies other
          rw [List.filter_cons_of_pos other.ties_refl] at this
          cases this
  | cons problem rest inductionHypothesis =>
      cases others with
      | nil =>
          have := sameTies problem
          rw [List.filter_cons_of_pos problem.ties_refl] at this
          cases this
      | cons other otherRest =>
          -- The first problem of either list occurs in the other one, so the two tie.
          have inOthers : problem ∈ (other :: otherRest).filter problem.ties := by
            rw [← sameTies, List.filter_cons_of_pos problem.ties_refl]
            exact List.mem_cons_self
          have inProblems : other ∈ (problem :: rest).filter other.ties := by
            rw [sameTies, List.filter_cons_of_pos other.ties_refl]
            exact List.mem_cons_self
          have tie : problem.ties other = true := by
            rw [Problem.ties, first_mayPrecede inOrder (List.mem_filter.mp inProblems).1,
              first_mayPrecede othersInOrder (List.mem_filter.mp inOthers).1]
            rfl
          have sameHeads := sameTies problem
          rw [List.filter_cons_of_pos problem.ties_refl, List.filter_cons_of_pos tie] at sameHeads
          obtain ⟨rfl, -⟩ := List.cons_eq_cons.mp sameHeads
          refine congrArg (problem :: ·)
            (inductionHypothesis inOrder.of_cons othersInOrder.of_cons ?_)
          intro third
          have sameThird := sameTies third
          by_cases isTied : third.ties problem = true
          · rw [List.filter_cons_of_pos isTied, List.filter_cons_of_pos isTied] at sameThird
            exact (List.cons_eq_cons.mp sameThird).2
          · rwa [List.filter_cons_of_neg isTied, List.filter_cons_of_neg isTied] at sameThird

end LintResult

end ZigLint
