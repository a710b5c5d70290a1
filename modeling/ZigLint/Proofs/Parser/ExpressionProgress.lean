import ZigLint.Proofs.Parser.Progress
import ZigLint.Proofs.Parser.Rounds

namespace ZigLint.Parser

/-!
# Progress of operator expressions

Skipping a parenthesised group reads a token; skipping a capture or modifiers may
read none. If the two productions of the next nesting level advance, then so does
every operator expression, argument list and initializer over them.
-/

variable
  {kinds : Array TokenKind}
  {depth : Nat}
  {inner : Inner}
  {start : TokenIndex}

/-- Both productions of the next nesting level advance. -/
structure InnerAdvances
    (kinds : Array TokenKind)
    (depth : Nat)
    (inner : Inner) :
    Prop where
  prefixExpr : Advances kinds depth inner.prefixExpr
  typeExpr : Advances kinds depth inner.typeExpr

theorem skipEither_proceeds
    {one other : TokenKind}
    (oneNotEof : one ≠ .eof)
    (otherNotEof : other ≠ .eof) :
    Proceeds kinds depth (skipEither one other) :=
  .accept oneNotEof (.pure id) (.bind (accept_moves otherNotEof) fun _ => .pure id)

/-- Every token inside a parenthesised group is one to read. -/
theorem groupRound_repeats (level : Nat) : Repeats kinds depth (groupRound level) := by
  refine moves_current fun kind => ?_
  split
  case h_1 => exact .advance nofun fun _ => .pure id
  case h_2 => exact .advance nofun fun _ => by split <;> exact .pure id
  case h_3 => exact .mismatch
  case h_4 notEof => exact .advance notEof fun _ => .pure id

theorem skipParens_advances : Advances kinds depth skipParens := by
  rw [skipParens_eq]
  refine .first (expect_advances nofun) fun _ => ?_
  exact .bind (iterate_proceeds groupRound_repeats) fun _ => .pure id

theorem captureRound_goesOn : GoesOn kinds depth captureRound := by
  refine .accept nofun (.pure id) (moves_isAt .mismatch fun other notEof => ?_)
  exact .advance notEof fun _ => .pure id

theorem skipCapture_proceeds : Proceeds kinds depth skipCapture := by
  rw [skipCapture_eq]
  exact .accept nofun (repeatWhile_proceeds captureRound_goesOn) (.pure id)

theorem declModifierRound_goesOn : GoesOn kinds depth declModifierRound := by
  refine moves_current fun kind => ?_
  split
  case h_5 => exact .pure nofun
  all_goals exact .advance nofun fun _ => .bind skipParens_advances fun _ => .pure id

theorem skipDeclModifiers_proceeds : Proceeds kinds depth skipDeclModifiers := by
  rw [skipDeclModifiers_eq]
  exact repeatWhile_proceeds declModifierRound_goesOn

theorem pointerModifierRound_goesOn : GoesOn kinds depth pointerModifierRound := by
  refine moves_current fun kind => ?_
  split
  case h_6 => exact .pure nofun
  case h_4 | h_5 => exact .advance nofun fun _ => .bind skipParens_advances fun _ => .pure id
  all_goals exact .advance nofun fun _ => .pure id

theorem skipPointerModifiers_proceeds : Proceeds kinds depth skipPointerModifiers := by
  rw [skipPointerModifiers_eq]
  exact repeatWhile_proceeds pointerModifierRound_goesOn

/-- With each operator its right operand is read. -/
theorem operatorRound_repeats
    {level : Nat}
    {left : Ast}
    (operandAdvances : Advances kinds depth (binaryExpr inner level)) :
    Repeats kinds depth (operatorRound inner level start left) := by
  refine .look current_peeks fun kind => ?_
  by_cases isOperator : kind.bindingPower? = some (7 - level)
  · rw [if_pos isOperator]
    refine .bind advance_proceeds fun operator => ?_
    by_cases isCatch : kind = .keyword .kwCatch
    · simp only [if_pos isCatch]
      refine .bind skipCapture_proceeds fun _ => .first operandAdvances fun _ => ?_
      exact .bind .finish fun _ => .pure id
    · simp only [if_neg isCatch]
      exact .first operandAdvances fun _ => .bind .finish fun _ => .pure id
  · rw [if_neg isOperator]
    exact .pure id

theorem binaryExpr_advances
    (advances : InnerAdvances kinds depth inner)
    (level : Nat) :
    Advances kinds depth (binaryExpr inner level) := by
  induction level with
  | zero => exact advances.prefixExpr
  | succ level inductionHypothesis =>
      rw [binaryExpr_succ_eq]
      refine .look here_peeks fun start => .first inductionHypothesis fun operand => ?_
      exact iterate_proceeds fun left => operatorRound_repeats inductionHypothesis

theorem expr_advances (advances : InnerAdvances kinds depth inner) :
    Advances kinds depth (expr inner) :=
  binaryExpr_advances advances 7

theorem assignExpr_advances (advances : InnerAdvances kinds depth inner) :
    Advances kinds depth (assignExpr inner) := by
  refine .look here_peeks fun start => .first (expr_advances advances) fun left => ?_
  refine .look current_peeks fun kind => ?_
  split
  case h_3 => exact .pure id
  all_goals exact .bind advance_proceeds fun _ => .bind (expr_advances advances) fun _ => .finish

/-- In front of each comma an item is read. -/
theorem separatedRound_repeats
    {closing : TokenKind}
    {item : Parser (List α)}
    (advances : Advances kinds depth item) :
    Repeats kinds depth (separatedRound closing item) := by
  refine .look isAt_peeks fun atEnd => ?_
  cases atEnd with
  | true => exact .pure id
  | false =>
      refine .first advances fun parts => .bind (accept_moves nofun) fun more => ?_
      cases more <;> exact .pure id

theorem separated_proceeds
    {closing : TokenKind}
    {item : Parser (List α)}
    (advances : Advances kinds depth item) :
    Proceeds kinds depth (separated closing item) := by
  rw [separated_eq]
  exact collect_proceeds (separatedRound_repeats advances)

theorem callArguments_advances (advances : InnerAdvances kinds depth inner) :
    Advances kinds depth (callArguments inner) := by
  refine .first (expect_advances nofun) fun _ => ?_
  refine .bind (separated_proceeds (map_advances (expr_advances advances))) fun _ => ?_
  exact .bind (expect_advances nofun) fun _ => .pure id

theorem initializerEntry_advances (advances : InnerAdvances kinds depth inner) :
    Advances kinds depth (initializerEntry inner) := by
  refine .look current_peeks fun first => .look peek_peeks fun second => ?_
  refine .look peek_peeks fun third => ?_
  split
  · refine .bind advance_proceeds fun _ => .bind advance_proceeds fun _ => ?_
    refine .bind advance_proceeds fun _ => ?_
    exact .first (expr_advances advances) fun _ => .finish
  · exact expr_advances advances

theorem initializerList_advances
    {type? : Option Ast}
    (advances : InnerAdvances kinds depth inner) :
    Advances kinds depth (initializerList inner start type?) := by
  refine .first (expect_advances nofun) fun _ => ?_
  refine .bind (separated_proceeds (map_advances (initializerEntry_advances advances))) fun _ => ?_
  exact .bind (expect_advances nofun) fun _ => .finish

end ZigLint.Parser
