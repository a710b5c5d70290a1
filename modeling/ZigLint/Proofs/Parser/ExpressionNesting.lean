import ZigLint.Proofs.Parser.Keeps

namespace ZigLint.Parser

/-!
# Nesting of operator expressions

Whatever is skipped keeps the brackets, modifiers with their arguments included.
If the two productions of the next nesting level keep them, the operator
expressions, arguments and initializers over them do.
-/

open Brackets

variable {kinds : Array TokenKind} {inner : Inner}

/-- Both productions of the next nesting level keep the brackets. -/
structure InnerKeeps
    (kinds : Array TokenKind)
    (inner : Inner) :
    Prop where
  prefixExpr : Keeps kinds inner.prefixExpr
  typeExpr : Keeps kinds inner.typeExpr

theorem skipEither_keeps
    {one other : TokenKind}
    (oneOrdinary : isOrdinary one = true)
    (otherOrdinary : isOrdinary other = true) :
    Keeps kinds (skipEither one other) := by
  refine .bind (accept_keeps oneOrdinary) fun found => ?_
  cases found with
  | true => exact .pure
  | false => exact .bind (accept_keeps otherOrdinary) fun _ => .pure

theorem skipDeclModifiers_keeps : Keeps kinds skipDeclModifiers := by
  refine repeatWhile_keeps (keeps_current fun kind => ?_)
  split
  case h_5 => exact .pure
  all_goals exact .advance_arguments rfl fun _ _ => .pure

theorem skipPointerModifiers_keeps : Keeps kinds skipPointerModifiers := by
  refine repeatWhile_keeps (keeps_current fun kind => ?_)
  split
  case h_6 => exact .pure
  case h_4 | h_5 => exact .advance_arguments rfl fun _ _ => .pure
  all_goals exact .advance rfl fun _ => .pure

/-- A binary operator is an ordinary token, apart from the one that a capture may follow. -/
theorem isOrdinary_of_bindingPower?
    {kind : TokenKind}
    {power : Nat}
    (isOperator : kind.bindingPower? = some power)
    (noCatch : kind ≠ .keyword .kwCatch) :
    isOrdinary kind = true := by
  unfold TokenKind.bindingPower? at isOperator
  split at isOperator
  case h_13 => exact absurd rfl noCatch
  case h_27 => cases isOperator
  all_goals rfl

theorem binaryExpr_keeps
    (keeps : InnerKeeps kinds inner)
    (level : Nat) :
    Keeps kinds (binaryExpr inner level) := by
  induction level with
  | zero => exact keeps.prefixExpr
  | succ level inductionHypothesis =>
      refine .look here_looks fun start => .bind inductionHypothesis fun operand => ?_
      refine iterate_keeps fun left => keeps_current fun kind => ?_
      by_cases isOperator : kind.bindingPower? = some (7 - level)
      · rw [if_pos isOperator]
        by_cases isCatch : kind = .keyword .kwCatch
        · simp only [if_pos isCatch]
          refine .advance_capture (by rw [isCatch]; rfl) fun _ _ => ?_
          exact .bind inductionHypothesis fun _ => .bind finish_keeps fun _ => .pure
        · simp only [if_neg isCatch]
          refine .advance (isOrdinary_of_bindingPower? isOperator isCatch) fun _ => ?_
          exact .bind inductionHypothesis fun _ => .bind finish_keeps fun _ => .pure
      · rw [if_neg isOperator]
        exact .pure

theorem expr_keeps (keeps : InnerKeeps kinds inner) : Keeps kinds (expr inner) :=
  binaryExpr_keeps keeps 7

theorem assignExpr_keeps (keeps : InnerKeeps kinds inner) : Keeps kinds (assignExpr inner) := by
  refine .look here_looks fun start => .bind (expr_keeps keeps) fun left => ?_
  refine keeps_current fun kind => ?_
  split
  case h_3 => exact .pure
  all_goals exact .advance rfl fun _ => .bind (expr_keeps keeps) fun _ => finish_keeps

theorem separated_keeps
    {closing : TokenKind}
    {item : Parser (List α)}
    (keeps : Keeps kinds item) :
    Keeps kinds (separated closing item) := by
  refine collect_keeps (.look isAt_looks fun atEnd => ?_)
  cases atEnd with
  | true => exact .pure
  | false =>
      refine .bind keeps fun parts => .bind (accept_keeps rfl) fun more => ?_
      cases more <;> exact .pure

/-- The parentheses of a call enclose its arguments. -/
theorem callArguments_keeps (keeps : InnerKeeps kinds inner) :
    Keeps kinds (callArguments inner) := by
  refine expect_opens rfl fun _ => .after (separated_keeps (map_keeps (expr_keeps keeps))) ?_
  exact fun _ => .expect rfl fun _ => .pure

theorem initializerEntry_keeps (keeps : InnerKeeps kinds inner) :
    Keeps kinds (initializerEntry inner) := by
  refine keeps_current_peek_peek fun first second third => ?_
  split
  · refine .advance rfl fun _ => .advance rfl fun _ => .advance rfl fun _ => ?_
    exact .bind (expr_keeps keeps) fun _ => finish_keeps
  · exact (expr_keeps keeps).from

/-- The braces of an initializer enclose its entries. -/
theorem initializerList_keeps
    {start : TokenIndex}
    {type? : Option Ast}
    (keeps : InnerKeeps kinds inner) :
    Keeps kinds (initializerList inner start type?) := by
  refine expect_opens rfl fun _ =>
    .after (separated_keeps (map_keeps (initializerEntry_keeps keeps))) ?_
  exact fun _ => .expect rfl fun _ => finish_keeps

end ZigLint.Parser
