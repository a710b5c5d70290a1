import ZigLint.Proofs.Problem.Places
import ZigLint.Proofs.Text.Parts

namespace ZigLint

/-!
# How far a suppression comment reaches

A problem is suppressed by the line it starts on or by the line before it, and by
nothing else of the source. Either line decides by itself, read as if it were a
source of its own.
-/

/--
The line, read as a source of its own, holds a directive about the given target
that switches the rule off.
-/
def DirectiveTarget.DisabledBy
    (target : DirectiveTarget)
    (line : List Char)
    (ruleId : String) :
    Prop :=
  ∃ comment ∈ (SuppressionTable.ofSource (String.ofList line)).comments,
    comment.lineStart = target.line 1 ∧
      comment.lineEnd = target.line 1 ∧ (comment.ruleIds = [] ∨ ruleId ∈ comment.ruleIds)

namespace DisableComment

theorem appliesTo_iff
    {comment : DisableComment}
    {ruleId : String} :
    comment.appliesTo ruleId = true ↔ comment.ruleIds = [] ∨ ruleId ∈ comment.ruleIds := by
  simp [appliesTo]

end DisableComment

namespace Text

theorem not_mem_of_mem_lines
    {chars line : List Char}
    (member : line ∈ lines chars) :
    '\n' ∉ line := by
  rw [lines_eq_splitOn] at member
  exact not_mem_of_mem_splitOn member

end Text

namespace SuppressionTable

variable {source : String} {before after : List (List Char)} {line : List Char}

/-- The comments of a source are the directives of its lines. -/
theorem mem_comments_iff
    {comment : DisableComment} :
    comment ∈ (ofSource source).comments ↔
      ∃ index text directive,
        (Text.lines source.toList)[index]? = some text ∧
          Directive.ofLine? text = some directive ∧ comment = directive.toComment (index + 1) := by
  simp only [ofSource, List.mem_filterMap, Option.map_eq_some_iff, Prod.exists,
    List.mk_mem_zipIdx_iff_le_and_getElem?_sub]
  constructor
  · rintro ⟨text, number, ⟨oneLe, found⟩, directive, directiveEq, rfl⟩
    exact ⟨number - 1, text, directive, found, directiveEq, by rw [Nat.sub_add_cancel oneLe]⟩
  · rintro ⟨index, text, directive, found, directiveEq, rfl⟩
    exact ⟨text, index + 1, ⟨Nat.le_add_left 1 index, found⟩, directive, directiveEq, rfl⟩

/-- A line by itself has the directive that it has in a source. -/
theorem disabledBy_iff
    {target : DirectiveTarget}
    {ruleId : String}
    (noBreak : '\n' ∉ line) :
    target.DisabledBy line ruleId ↔
      ∃ directive,
        Directive.ofLine? line = some directive ∧
          directive.target = target ∧ (directive.ruleIds = [] ∨ ruleId ∈ directive.ruleIds) := by
  have linesEq : Text.lines line = [line] := by
    have appended := Text.lines_append noBreak (rfl : Text.lines [] = [[]])
    rwa [List.append_nil] at appended
  simp only [DirectiveTarget.DisabledBy, mem_comments_iff, String.toList_ofList, linesEq]
  constructor
  · rintro ⟨_, ⟨index, text, directive, found, directiveEq, rfl⟩, startEq, -, applies⟩
    obtain ⟨rfl, rfl⟩ : index = 0 ∧ line = text := by
      cases index with
      | zero => exact ⟨rfl, Option.some.inj found⟩
      | succ => cases found
    refine ⟨directive, directiveEq, ?_, applies⟩
    revert startEq
    show directive.target.line 1 = target.line 1 → directive.target = target
    cases directive.target <;> cases target <;> decide
  · rintro ⟨directive, directiveEq, rfl, applies⟩
    exact ⟨_, ⟨0, line, directive, rfl, directiveEq, rfl⟩, rfl, rfl, applies⟩

/-- On a line a rule is switched off by this line or by the line before it. -/
theorem suppresses_iff
    {ruleId : String}
    (linesEq : Text.lines source.toList = before ++ line :: after) :
    (ofSource source).suppresses ruleId (before.length + 1) = true ↔
      DirectiveTarget.currentLine.DisabledBy line ruleId ∨
        ∃ previous, before.getLast? = some previous ∧
          DirectiveTarget.nextLine.DisabledBy previous ruleId := by
  have noBreak : ∀ text ∈ before ++ line :: after, '\n' ∉ text := by
    intro text member
    exact Text.not_mem_of_mem_lines (linesEq ▸ member)
  have lineEq : (before ++ line :: after)[before.length]? = some line := by simp
  simp only [suppresses, List.any_eq_true, Bool.and_eq_true, DisableComment.appliesTo_iff,
    DisableComment.covers, decide_eq_true_eq, mem_comments_iff, linesEq]
  constructor
  · rintro ⟨_, ⟨index, text, directive, found, directiveEq, rfl⟩, ⟨startLe, leEnd⟩, applies⟩
    have isDisabled : directive.target.DisabledBy text ruleId :=
      (disabledBy_iff (noBreak _ (List.mem_of_getElem? found))).mpr
        ⟨directive, directiveEq, rfl, applies⟩
    have numberEq : directive.target.line (index + 1) = before.length + 1 :=
      Nat.le_antisymm startLe leEnd
    cases targetEq : directive.target with
    | currentLine =>
        rw [targetEq] at numberEq isDisabled
        obtain rfl : index = before.length := Nat.add_right_cancel numberEq
        obtain rfl : line = text := Option.some.inj (lineEq.symm.trans found)
        exact .inl isDisabled
    | nextLine =>
        rw [targetEq] at numberEq isDisabled
        have indexEq : index + 1 = before.length := Nat.add_right_cancel numberEq
        rw [List.getElem?_append_left (by omega)] at found
        refine .inr ⟨text, ?_, isDisabled⟩
        rw [List.getLast?_eq_getElem?, ← indexEq]
        exact found
  · rintro (isDisabled | ⟨previous, isLast, isDisabled⟩)
    · obtain ⟨directive, directiveEq, targetEq, applies⟩ :=
        (disabledBy_iff (noBreak line (by simp))).mp isDisabled
      refine ⟨_, ⟨before.length, line, directive, lineEq, directiveEq, rfl⟩, ?_, applies⟩
      simp [Directive.toComment, targetEq, DirectiveTarget.line]
    · have isBefore : previous ∈ before := List.mem_of_getLast? isLast
      obtain ⟨directive, directiveEq, targetEq, applies⟩ :=
        (disabledBy_iff (noBreak previous (List.mem_append_left _ isBefore))).mp isDisabled
      have positive : 0 < before.length := List.length_pos_of_mem isBefore
      rw [List.getLast?_eq_getElem?] at isLast
      refine ⟨_, ⟨before.length - 1, previous, directive, ?_, directiveEq, rfl⟩, ?_, applies⟩
      · rw [List.getElem?_append_left (by omega), isLast]
      · simp only [Directive.toComment, targetEq, DirectiveTarget.line]
        omega

end SuppressionTable

/--
A comment suppresses a problem exactly if the line on which the problem starts
holds a directive for the current line, or the line before it one for the next
line, that names the rule or no rule at all.
-/
theorem Document.suppresses_problem_iff
    (path : String)
    (tree : SyntaxTree)
    (ruleId : String)
    (severity : Severity)
    (span : Span)
    (message : String)
    (fix? : Option Fix) :
    ∃ before line after,
      tree.source.toList.splitOn '\n' = before ++ line :: after ∧
        ((ofTree path tree).location span.start).line = before.length + 1 ∧
          Text.lineStart before ≤ min span.start tree.source.utf8ByteSize ∧
            min span.start tree.source.utf8ByteSize ≤
                Text.lineStart before + Text.byteLength line ∧
              ((ofTree path tree).suppresses
                    ((ofTree path tree).problem ruleId severity span message fix?) = true ↔
                DirectiveTarget.currentLine.DisabledBy line ruleId ∨
                  ∃ previous, before.getLast? = some previous ∧
                    DirectiveTarget.nextLine.DisabledBy previous ruleId) := by
  obtain ⟨before, line, after, linesEq, numberEq, startLe, leStop⟩ :=
    LineMap.exists_line tree.source span.start
  refine ⟨before, line, after, ?_, numberEq, startLe, leStop, ?_⟩
  · rw [← Text.lines_eq_splitOn, linesEq]
  · rw [← SuppressionTable.suppresses_iff linesEq, ← numberEq, suppresses, problem_start]
    rfl

end ZigLint
