import ZigLint.Proofs.Parser.DeclarationProgress

namespace ZigLint.Parser

/-!
# Progress of primary and type expressions

Control flow, literals, suffixes and types read a token if the productions of the
next nesting level do. The level after the last one fails where it stands, so by
induction from there every level advances, and a whole file has a run.
-/

variable
  {kinds : Array TokenKind}
  {depth : Nat}
  {inner : Inner}
  {start : TokenIndex}

theorem elseBranch?_proceeds (advances : InnerAdvances kinds depth inner) :
    Proceeds kinds depth (elseBranch? inner) :=
  after?_proceeds nofun (.bind skipCapture_proceeds fun _ => assignExpr_advances advances)

/-- An `if` reads at least its parentheses. -/
theorem ifExpr_advances (advances : InnerAdvances kinds depth inner) :
    Advances kinds depth (ifExpr inner start) := by
  refine .bind advance_proceeds fun main => .first (expect_advances nofun) fun _ => ?_
  refine .bind (expr_advances advances) fun condition => .bind (expect_advances nofun) fun _ => ?_
  refine .bind skipCapture_proceeds fun _ => .bind (assignExpr_advances advances) fun _ => ?_
  exact .bind (elseBranch?_proceeds advances) fun _ => .finish

theorem rangeEnd?_proceeds
    {isOpen : TokenKind → Bool}
    (advances : InnerAdvances kinds depth inner) :
    Proceeds kinds depth (rangeEnd? inner isOpen) := by
  refine .accept nofun (.look current_peeks fun kind => ?_) (.pure id)
  split
  · exact .pure id
  · exact .bind (expr_advances advances) fun _ => .pure id

theorem forInput_advances (advances : InnerAdvances kinds depth inner) :
    Advances kinds depth (forInput inner) := by
  refine .first (expr_advances advances) fun input => ?_
  exact .bind (rangeEnd?_proceeds advances) fun _ => .pure id

theorem loopInputs_proceeds
    {isFor : Bool}
    (advances : InnerAdvances kinds depth inner) :
    Proceeds kinds depth (loopInputs inner isFor) := by
  cases isFor with
  | true => exact separated_proceeds (forInput_advances advances)
  | false => exact .of_advances (map_advances (expr_advances advances))

theorem loopContinuation?_proceeds
    {isFor : Bool}
    (advances : InnerAdvances kinds depth inner) :
    Proceeds kinds depth (loopContinuation? inner isFor) := by
  cases isFor with
  | true => exact .pure id
  | false =>
      have headAdvances :
          Advances kinds depth (expect .lParen >>= fun _ => assignExpr inner >>= fun continuation =>
            expect .rParen >>= fun _ => pure continuation) :=
        .first (expect_advances nofun) fun _ => .bind (assignExpr_advances advances) fun _ =>
          .bind (expect_advances nofun) fun _ => .pure id
      exact after?_proceeds nofun headAdvances

/-- A loop reads at least its parentheses. -/
theorem loopExpr_advances (advances : InnerAdvances kinds depth inner) :
    Advances kinds depth (loopExpr inner start) := by
  refine .look isAt_peeks fun isFor => .bind advance_proceeds fun main => ?_
  refine .first (expect_advances nofun) fun _ => .bind (loopInputs_proceeds advances) fun _ => ?_
  refine .bind (expect_advances nofun) fun _ => .bind skipCapture_proceeds fun _ => ?_
  refine .bind (loopContinuation?_proceeds advances) fun _ => ?_
  refine .bind (assignExpr_advances advances) fun body => ?_
  exact .bind (elseBranch?_proceeds advances) fun _ => .finish

theorem prongItemRound_advances (advances : InnerAdvances kinds depth inner) :
    Advances kinds depth (prongItemRound inner) := by
  refine .first (expr_advances advances) fun item => ?_
  refine .bind (after?_proceeds nofun (expr_advances advances)) fun upper? => ?_
  refine .accept nofun (.look isAt_peeks fun atArrow => ?_) (.pure id)
  cases atArrow <;> exact .pure id

theorem prongItems_advances (advances : InnerAdvances kinds depth inner) :
    Advances kinds depth (prongItems inner) := by
  rw [prongItems_eq]
  exact collect_advances (prongItemRound_advances advances)

theorem prongSelector_advances (advances : InnerAdvances kinds depth inner) :
    Advances kinds depth (prongSelector inner) :=
  .accept nofun (.pure id) (prongItems_advances advances)

theorem switchProng_advances (advances : InnerAdvances kinds depth inner) :
    Advances kinds depth (switchProng inner) := by
  refine .look here_peeks fun start => .bind (accept_moves nofun) fun _ => ?_
  refine .first (prongSelector_advances advances) fun items => ?_
  refine .bind (expect_advances nofun) fun arrow => .bind skipCapture_proceeds fun _ => ?_
  exact .bind (assignExpr_advances advances) fun _ => .finish

theorem endProng_proceeds : Proceeds kinds depth endProng := by
  refine .accept nofun (.pure id) (.look isAt_peeks fun isLast => ?_)
  cases isLast with
  | true => exact .pure id
  | false =>
      refine .look previous_peeks fun before => ?_
      split
      · exact .mismatch
      · exact .pure id

theorem prongRound_repeats (advances : InnerAdvances kinds depth inner) :
    Repeats kinds depth (prongRound inner) := by
  refine .look isAt_peeks fun atEnd => ?_
  cases atEnd with
  | true => exact .pure id
  | false =>
      refine .first (switchProng_advances advances) fun prong => ?_
      exact .bind endProng_proceeds fun _ => .pure id

/-- A `switch` reads at least its parentheses. -/
theorem switchExpr_advances (advances : InnerAdvances kinds depth inner) :
    Advances kinds depth (switchExpr inner start) := by
  rw [switchExpr_eq]
  refine .bind advance_proceeds fun main => .first (expect_advances nofun) fun _ => ?_
  refine .bind (expr_advances advances) fun subject => .bind (expect_advances nofun) fun _ => ?_
  refine .bind (expect_advances nofun) fun _ => ?_
  refine .bind (collect_proceeds (prongRound_repeats advances)) fun prongs => ?_
  exact .bind (expect_advances nofun) fun _ => .finish

theorem curlySuffixExpr_advances (advances : InnerAdvances kinds depth inner) :
    Advances kinds depth (curlySuffixExpr inner) := by
  refine .look here_peeks fun start => .first advances.typeExpr fun type => ?_
  refine .look isAt_peeks fun atBrace => ?_
  cases atBrace with
  | true => exact .of_advances (initializerList_advances advances)
  | false => exact .pure id

theorem operand?_proceeds (advances : InnerAdvances kinds depth inner) :
    Proceeds kinds depth (operand? inner) := by
  refine .look current_peeks fun kind => ?_
  split
  · exact .pure id
  · exact .bind (expr_advances advances) fun _ => .pure id

theorem skipJumpLabel_proceeds : Proceeds kinds depth skipJumpLabel := by
  refine .look current_peeks fun first => .look peek_peeks fun second => ?_
  split
  · exact .bind advance_proceeds fun _ => .bind advance_proceeds fun _ => .pure id
  · exact .pure id

/-- A jump reads at least its keyword. -/
theorem primaryExpr_advances (advances : InnerAdvances kinds depth inner) :
    Advances kinds depth (primaryExpr inner) := by
  refine .look here_peeks fun start => moves_current fun first => .look peek_peeks fun second => ?_
  refine .look peek_peeks fun third => ?_
  split
  case h_1 => exact .advance nofun fun _ => .bind (operand?_proceeds advances) fun _ => .finish
  case h_2 =>
      refine .advance nofun fun _ => .bind skipJumpLabel_proceeds fun _ => ?_
      exact .bind (operand?_proceeds advances) fun _ => .finish
  case h_3 => exact .advance nofun fun _ => .bind skipJumpLabel_proceeds fun _ => .finish
  case h_4 => exact (ifExpr_advances advances).from
  case h_5 | h_6 => exact (loopExpr_advances advances).from
  case h_7 | h_8 => exact .advance nofun fun _ => .of_advances (loopExpr_advances advances)
  case h_9 => exact (switchExpr_advances advances).from
  case h_10 => exact (block_advances advances).from
  case h_11 =>
      refine .advance nofun fun _ => .bind advance_proceeds fun _ => ?_
      exact .of_advances (block_advances advances)
  case h_12 | h_13 | h_14 =>
      refine .advance nofun fun _ => .bind advance_proceeds fun _ => ?_
      refine .bind (accept_moves nofun) fun _ => ?_
      exact .of_advances (loopExpr_advances advances)
  case h_15 => exact (curlySuffixExpr_advances advances).from

theorem unaryExpr_advances (advances : InnerAdvances kinds depth inner) :
    Advances kinds depth (unaryExpr inner) := by
  refine .look here_peeks fun start => .look current_peeks fun kind => ?_
  split
  case h_8 => exact .bind advance_proceeds fun _ => advances.prefixExpr
  case h_9 => exact primaryExpr_advances advances
  all_goals exact .bind advance_proceeds fun _ => .first advances.prefixExpr fun _ => .finish

theorem errorNameRound_goesOn : GoesOn kinds depth errorNameRound := by
  refine .look isAt_peeks fun atEnd => ?_
  cases atEnd with
  | true => exact .pure nofun
  | false => exact .first (expect_advances nofun) fun _ => .proceeds (accept_moves nofun)

theorem errorNames_advances : Advances kinds depth errorNames := by
  rw [errorNames_eq]
  refine .bind (repeatWhile_proceeds errorNameRound_goesOn) fun _ => ?_
  exact .first (expect_advances nofun) fun _ => .pure id

/-- A literal reads at least its first token. -/
theorem primaryTypeExpr_advances (advances : InnerAdvances kinds depth inner) :
    Advances kinds depth (primaryTypeExpr inner) := by
  refine .look here_peeks fun start => moves_current fun first => .look peek_peeks fun second => ?_
  split
  case h_1 => exact .advance nofun fun _ => .bind (callArguments_advances advances) fun _ => .finish
  case h_7 =>
      refine .first ?_ fun _ => .finish
      exact repeatWhile_advances (accept_advances nofun) (accept_moves nofun)
  case h_9 => exact .advance nofun fun _ => .bind advance_proceeds fun _ => .finish
  case h_10 => exact .advance nofun fun _ => .of_advances (initializerList_advances advances)
  case h_11 =>
      refine .advance nofun fun _ => .bind advance_proceeds fun _ => ?_
      exact .bind (expect_advances nofun) fun _ => .finish
  case h_12 =>
      refine .advance nofun fun _ => .bind advance_proceeds fun _ => ?_
      exact .bind errorNames_advances fun _ => .finish
  case h_13 => exact (prototype_advances advances).from
  case h_14 =>
      refine .advance nofun fun _ => .bind (expr_advances advances) fun _ => ?_
      exact .bind (expect_advances nofun) fun _ => .finish
  case h_25 => exact .advance nofun fun _ => .bind advances.typeExpr fun _ => .finish
  case h_26 => exact (ifExpr_advances advances).from
  case h_27 => exact (switchExpr_advances advances).from
  case h_28 => exact .mismatch
  case h_2 | h_3 | h_4 | h_5 | h_6 | h_8 => exact .advance nofun fun _ => .finish
  all_goals exact (containerDecl_advances advances).from

theorem indexParts_advances (advances : InnerAdvances kinds depth inner) :
    Advances kinds depth (indexParts inner) := by
  refine .first (expr_advances advances) fun index => ?_
  refine .bind (rangeEnd?_proceeds advances) fun stop? => ?_
  refine .bind (after?_proceeds nofun (expr_advances advances)) fun sentinel? => ?_
  exact .bind (expect_advances nofun) fun _ => .pure id

theorem suffixRound_repeats
    {subject : Ast}
    (advances : InnerAdvances kinds depth inner) :
    Repeats kinds depth (suffixRound inner start subject) := by
  refine moves_current fun first => .look peek_peeks fun second => ?_
  split
  case h_1 | h_2 =>
      refine .advance nofun fun _ => .bind advance_proceeds fun name => ?_
      exact .bind .finish fun _ => .pure id
  case h_3 | h_4 => exact .advance nofun fun _ => .bind .finish fun _ => .pure id
  case h_5 =>
      refine .advance nofun fun _ => .bind (indexParts_advances advances) fun parts => ?_
      exact .bind .finish fun _ => .pure id
  case h_6 =>
      refine .look here_peeks fun paren => .first (callArguments_advances advances).from fun _ => ?_
      exact .bind .finish fun _ => .pure id
  case h_7 => exact .pure id

theorem suffixExpr_advances (advances : InnerAdvances kinds depth inner) :
    Advances kinds depth (suffixExpr inner) := by
  rw [suffixExpr_eq]
  refine .look here_peeks fun start => .first (primaryTypeExpr_advances advances) fun subject => ?_
  exact iterate_proceeds fun subject => suffixRound_repeats advances

theorem errorUnionExpr_advances (advances : InnerAdvances kinds depth inner) :
    Advances kinds depth (errorUnionExpr inner) := by
  refine .look here_peeks fun start => .first (suffixExpr_advances advances) fun errors => ?_
  exact .accept? nofun (fun bang => .bind advances.typeExpr fun _ => .finish) (.pure id)

theorem bracketBounds_proceeds (advances : InnerAdvances kinds depth inner) :
    Proceeds kinds depth (bracketBounds inner) := by
  have sentinelProceeds : Proceeds kinds depth (after? .colon (expr inner)) :=
    after?_proceeds nofun (expr_advances advances)
  refine .look current_peeks fun kind => ?_
  split
  case h_1 => exact .pure id
  case h_2 =>
      refine .bind advance_proceeds fun _ => .bind (accept_moves nofun) fun _ => ?_
      exact .bind sentinelProceeds fun _ => .pure id
  case h_3 => exact .bind advance_proceeds fun _ => .bind (expr_advances advances) fun _ => .pure id
  case h_4 =>
      exact .bind (expr_advances advances) fun _ => .bind sentinelProceeds fun _ => .pure id

/-- A type with brackets reads at least the closing one. -/
theorem bracketType_advances (advances : InnerAdvances kinds depth inner) :
    Advances kinds depth (bracketType inner start) := by
  refine .bind advance_proceeds fun _ => ?_
  refine .bind (bracketBounds_proceeds advances) fun (bounds, isArray) => ?_
  refine .first (expect_advances nofun) fun _ => .bind skipPointerModifiers_proceeds fun _ => ?_
  refine .bind advances.typeExpr fun element => ?_
  cases isArray <;> exact .finish

theorem wrappedTypeExpr_advances (advances : InnerAdvances kinds depth inner) :
    Advances kinds depth (wrappedTypeExpr inner) := by
  refine .look here_peeks fun start => .look current_peeks fun kind => ?_
  split
  case h_1 => exact .bind advance_proceeds fun _ => .first advances.typeExpr fun _ => .finish
  case h_2 | h_3 =>
      refine .bind advance_proceeds fun _ => .bind skipPointerModifiers_proceeds fun _ => ?_
      exact .first advances.typeExpr fun _ => .finish
  case h_4 => exact bracketType_advances advances
  case h_5 => exact errorUnionExpr_advances advances

/-- At every depth both nesting productions advance: by induction on the levels that are left. -/
theorem atDepth_advances (depth : Nat) : InnerAdvances kinds depth (atDepth depth) := by
  rcases Nat.lt_or_ge depth maxLevels with allowed | exhausted
  · have deeper : InnerAdvances kinds (depth + 1) (atDepth (depth + 1)) :=
      atDepth_advances (depth + 1)
    exact {
      prefixExpr := .prefixExpr allowed (unaryExpr_advances deeper)
      typeExpr := .typeExpr allowed (wrappedTypeExpr_advances deeper)
    }
  · rw [atDepth_of_le exhausted]
    exact ⟨.mismatch, .mismatch⟩
  termination_by maxLevels - depth

/-- A whole file has a run. -/
theorem file_proceeds : Proceeds kinds 0 file := by
  refine .bind (containerMembers_proceeds (atDepth_advances 0)) fun members => ?_
  refine .look isAt_peeks fun atEnd => ?_
  cases atEnd with
  | true => exact .pure id
  | false => exact .mismatch

end ZigLint.Parser
