import ZigLint.Proofs.Parser.ExpressionPlacement
import ZigLint.Proofs.Syntax.Charges

namespace ZigLint.Parser

/-!
# Charges of operator expressions

Whatever the two productions of the next nesting level take of the tokens they
read, the operator expressions, arguments and initializers over them take no half
of a token twice. An operator node takes a half of its operator, which stands
between what its operands take.
-/

variable {kinds : Array TokenKind} {inner : Inner}

/-- The parser builds a node that starts at the first token it reads. -/
def Starts (kinds : Array TokenKind) (parser : Parser Ast) : Prop :=
  ∀ position, Ensures kinds parser position fun ast _ => ast.head.first = ⟨position⟩

/--
Both productions of the next nesting level leave the first half of the first token free,
and a type starts at this token.
-/
structure InnerSpends
    (kinds : Array TokenKind)
    (inner : Inner) :
    Prop where
  prefixExpr : Spends kinds 1 (fun ast => [ast]) inner.prefixExpr
  typeExpr : Spends kinds 1 (fun ast => [ast]) inner.typeExpr
  typeExpr_starts : Starts kinds inner.typeExpr

/--
Every level of operator expressions is charged to the tokens it reads.

Along a chain of operators the operand on the left is charged to what stands before the
operator, and the one on the right to what stands behind it.
-/
theorem binaryExpr_spends
    (spends : InnerSpends kinds inner)
    (level : Nat) :
    Spends kinds 1 (fun ast => [ast]) (binaryExpr inner level) := by
  induction level with
  | zero => exact spends.prefixExpr
  | succ level inductionHypothesis =>
      intro start inside
      unfold binaryExpr
      refine ensures_bind.mpr (ensures_here.mpr (ensures_bind.mpr ?_))
      refine (inductionHypothesis start inside).mono fun operand afterOperand operandSpent => ?_
      refine ensures_iterate (fun ast stop => Spent kinds start (2 * start + 1) [ast] stop) ?_
        operandSpent
      intro left position leftSpent
      refine ensures_bind.mpr (ensures_current.mpr ?_)
      split
      case isFalse => exact ensures_pure.mpr leftSpent
      case isTrue isOperator =>
          have notEof : kindAt kinds position ≠ .eof := by
            intro isEof
            simp [isEof, TokenKind.bindingPower?] at isOperator
          have startLe := leftSpent.position_le
          have alone :
              (if kindAt kinds position = .pipePipe then NodeForm.mergeErrorSets
                else .binaryOp).sharesMain = false := by
            split <;> rfl
          have right_continues :
              Continues kinds (2 * (position + 1)) [] (2 * start + 1)
                (fun step : ForInStep Ast => [step.value])
                (binaryExpr inner level >>= fun right =>
                  finish
                    (if kindAt kinds position = .pipePipe then .mergeErrorSets else .binaryOp)
                    ⟨position⟩ ⟨start⟩ [(.left, left), (.right, right)] >>= fun ast =>
                      pure (.yield ast)) := by
            refine .part inductionHypothesis fun right => .map ?_ fun _ => rfl
            have startLe : 2 * start + 1 ≤ 2 * position + 1 := by omega
            refine .finish_between leftSpent.charged startLe rfl alone fun isReturn => ?_
            split at isReturn <;> cases isReturn
          refine (advance_continues notEof ?_).mono fun _ _ spent =>
            spent.from_earlier startLe (Nat.le_refl _)
          by_cases isCatch : kindAt kinds position = .keyword .kwCatch
          · simp only [if_pos isCatch]
            exact .skip skipCapture_skips fun _ => right_continues
          · simp only [if_neg isCatch]
            exact right_continues

theorem expr_spends
    (spends : InnerSpends kinds inner) :
    Spends kinds 1 (fun ast => [ast]) (expr inner) :=
  binaryExpr_spends spends 7

theorem assignExpr_spends
    (spends : InnerSpends kinds inner) :
    Spends kinds 1 (fun ast => [ast]) (assignExpr inner) := by
  refine .skip here_skips fun start => .of_continues fun lower => ?_
  refine .part (expr_spends spends) fun left => ?_
  intro position lowerLe inside charged
  refine ensures_bind.mpr (ensures_current.mpr ?_)
  split
  case h_3 => exact Continues.pure rfl position lowerLe inside charged
  all_goals
    refine advance_continues (by simp_all) (.part (expr_spends spends) fun right => ?_)
    exact .finish_between charged lowerLe rfl rfl nofun

/-- Parts that are separated by commas take what each of them takes. -/
theorem separated_spends
    {closing : TokenKind}
    {item : Parser (List Ast)}
    (spends : Spends kinds 1 id item) :
    Spends kinds 1 id (separated closing item) := by
  refine .collect (.skip isAt_skips fun atEnd => ?_)
  cases atEnd with
  | true => exact .pure rfl
  | false =>
      refine .of_continues fun lower => .part spends fun parts => ?_
      refine .skip accept_skips fun more => ?_
      cases more <;> exact .pure rfl

theorem singleton_spends
    {parser : Parser Ast}
    (spends : Spends kinds 1 (fun ast => [ast]) parser) :
    Spends kinds 1 id (List.singleton <$> parser) :=
  spends.map fun _ => rfl

/-- Arguments are charged to what stands after their opening parenthesis. -/
theorem callArguments_spent
    (spends : InnerSpends kinds inner)
    {position : Nat} :
    Ensures kinds (callArguments inner) position fun arguments stop =>
      Spent kinds (position + 1) (2 * (position + 1)) arguments stop := by
  have argument_spends := singleton_spends (expr_spends spends)
  refine ensures_bind.mpr ((ensures_expect (by decide)).mpr fun _ lt => ?_)
  refine Continues.part (separated_spends argument_spends) (fun arguments => ?_) (position + 1)
    (Nat.le_succ _) lt .nil
  exact .skip (expect_skips (by decide)) fun _ => .pure rfl

theorem callArguments_spends
    (spends : InnerSpends kinds inner) :
    Spends kinds 1 id (callArguments inner) :=
  fun position _ => (callArguments_spent spends).mono fun _ _ spent =>
    spent.from_earlier (Nat.le_succ position) (by omega)

theorem initializerEntry_spends
    (spends : InnerSpends kinds inner) :
    Spends kinds 1 (fun ast => [ast]) (initializerEntry inner) := by
  intro position inside
  unfold initializerEntry
  refine ensures_bind.mpr (ensures_current.mpr (ensures_bind.mpr (ensures_peek.mpr ?_)))
  refine ensures_bind.mpr (ensures_peek.mpr ?_)
  split
  case h_2 => exact expr_spends spends position inside
  case h_1 atDot atName atEqual =>
      refine advance_advance_continues (by simp_all) (by simp_all) (.skip advance_skips fun _ => ?_)
      refine .from_half (.part (expr_spends spends) fun value => .finish rfl rfl nofun) ?_
      show 2 * position + 1 ≤ 2 * (position + 1) + 1
      omega

/-- An initializer takes a half of its brace, which stands behind its type. -/
theorem initializerList_continues
    (spends : InnerSpends kinds inner)
    {start : TokenIndex}
    {type? : Option Ast}
    {lower : Nat}
    {before : List Ast}
    (isType : type?.toList = before) :
    Continues kinds lower before lower (fun ast => [ast]) (initializerList inner start type?) := by
  have entry_spends := singleton_spends (initializerEntry_spends spends)
  refine .expect_main (by decide) fun brace charged lowerLe => ?_
  refine .part (separated_spends entry_spends) fun entries => ?_
  refine .skip (expect_skips (by decide)) fun _ => ?_
  exact .finish_between charged lowerLe (by simp [isType]) rfl nofun

end ZigLint.Parser
