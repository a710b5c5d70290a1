import ZigLint.Proofs.Parser.ExpressionProgress

namespace ZigLint.Parser

/-!
# Progress of declarations, blocks and containers

A declaration, a statement and a member read a token from wherever they are
started, even where their keyword is not ahead. Only the modifiers of a declaration,
the end of a statement and a list of members may be empty.
-/

variable
  {kinds : Array TokenKind}
  {depth : Nat}
  {inner : Inner}
  {start : TokenIndex}

/-- A binding reads at least its name. -/
theorem varDecl_advances
    {isPub isExtern : Bool}
    (advances : InnerAdvances kinds depth inner) :
    Advances kinds depth (varDecl inner start isPub isExtern) := by
  refine .look isAt_peeks fun isMutable => .bind advance_proceeds fun main => ?_
  refine .first (expect_advances nofun) fun name => ?_
  refine .bind (after?_proceeds nofun advances.typeExpr) fun type? => ?_
  refine .bind skipDeclModifiers_proceeds fun _ => ?_
  refine .bind (after?_proceeds nofun (expr_advances advances)) fun value? => ?_
  exact .bind (expect_advances nofun) fun _ => .finish

theorem endStatement_proceeds : Proceeds kinds depth endStatement := by
  refine .look previous_peeks fun before => ?_
  split
  · exact .bind (accept_moves nofun) fun _ => .pure id
  · exact .bind (expect_advances nofun) fun _ => .pure id

theorem statement_advances (advances : InnerAdvances kinds depth inner) :
    Advances kinds depth (statement inner) := by
  refine .look here_peeks fun start => .look current_peeks fun first => ?_
  refine .look peek_peeks fun second => ?_
  split
  case h_1 | h_2 => exact varDecl_advances advances
  case h_3 | h_4 => exact .bind advance_proceeds fun _ => varDecl_advances advances
  case h_5 | h_6 =>
      refine .bind advance_proceeds fun main => .bind skipCapture_proceeds fun _ => ?_
      refine .first (assignExpr_advances advances) fun body => ?_
      exact .bind endStatement_proceeds fun _ => .finish
  case h_7 =>
      refine .first (assignExpr_advances advances) fun expression => ?_
      exact .bind endStatement_proceeds fun _ => .pure id

theorem statementRound_repeats (advances : InnerAdvances kinds depth inner) :
    Repeats kinds depth (statementRound inner) := by
  refine .look isAt_peeks fun atEnd => ?_
  cases atEnd with
  | true => exact .pure id
  | false =>
      refine .look isAt_peeks fun atEof => ?_
      cases atEof with
      | true => exact .mismatch
      | false => exact .first (statement_advances advances) fun _ => .pure id

theorem block_advances (advances : InnerAdvances kinds depth inner) :
    Advances kinds depth (block inner start) := by
  rw [block_eq]
  refine .first (expect_advances nofun) fun brace => ?_
  refine .bind (collect_proceeds (statementRound_repeats advances)) fun statements => ?_
  exact .bind (expect_advances nofun) fun _ => .finish

theorem parameterName?_proceeds : Proceeds kinds depth parameterName? := by
  refine .look current_peeks fun first => .look peek_peeks fun second => ?_
  split
  · exact .bind advance_proceeds fun _ => .bind advance_proceeds fun _ => .pure id
  · exact .pure id

theorem parameterType_advances (advances : InnerAdvances kinds depth inner) :
    Advances kinds depth (parameterType inner) :=
  .accept? nofun (fun _ => .finish) advances.typeExpr

theorem parameter?_advances (advances : InnerAdvances kinds depth inner) :
    Advances kinds depth (parameter? inner) := by
  refine .look here_peeks fun start => .accept nofun (.pure id) ?_
  refine .bind (skipEither_proceeds nofun nofun) fun _ => .bind parameterName?_proceeds fun _ => ?_
  exact .first (parameterType_advances advances) fun _ => .bind .finish fun _ => .pure id

theorem returnType_advances (advances : InnerAdvances kinds depth inner) :
    Advances kinds depth (returnType inner) :=
  .accept? nofun (fun _ => .bind advances.typeExpr fun _ => .finish) advances.typeExpr

theorem parameterRound_repeats (advances : InnerAdvances kinds depth inner) :
    Repeats kinds depth (parameterRound inner) := by
  refine .look isAt_peeks fun atEnd => ?_
  cases atEnd with
  | true => exact .pure id
  | false =>
      refine .first (parameter?_advances advances) fun parameter => ?_
      refine .look isAt_peeks fun isLast => ?_
      cases isLast with
      | true => exact .pure id
      | false => exact .bind (expect_advances nofun) fun _ => .pure id

theorem prototype_advances
    {isPub isExtern : Bool}
    (advances : InnerAdvances kinds depth inner) :
    Advances kinds depth (prototype inner start isPub isExtern) := by
  rw [prototype_eq]
  refine .first (expect_advances nofun) fun main => .bind (accept?_moves nofun) fun name => ?_
  refine .bind (expect_advances nofun) fun _ => ?_
  refine .bind (collect_proceeds (parameterRound_repeats advances)) fun parameters => ?_
  refine .bind (expect_advances nofun) fun _ => .bind skipDeclModifiers_proceeds fun _ => ?_
  exact .bind (returnType_advances advances) fun _ => .finish

theorem fnBody?_advances (advances : InnerAdvances kinds depth inner) :
    Advances kinds depth (fnBody? inner) := by
  refine .look isAt_peeks fun hasBody => ?_
  cases hasBody with
  | true => exact .look here_peeks fun _ => .first (block_advances advances) fun _ => .pure id
  | false => exact .first (expect_advances nofun) fun _ => .pure id

theorem fnDecl_advances
    {isPub isExtern : Bool}
    (advances : InnerAdvances kinds depth inner) :
    Advances kinds depth (fnDecl inner start isPub isExtern) := by
  refine .first (prototype_advances advances) fun prototype => ?_
  exact .bind (fnBody?_advances advances) fun _ => .finish

theorem externRound_repeats (isExtern : Bool) : Repeats kinds depth (externRound isExtern) := by
  refine moves_current fun kind => ?_
  split
  case h_1 => exact .advance nofun fun _ => .bind (accept_moves nofun) fun _ => .pure id
  case h_7 => exact .pure id
  all_goals exact .advance nofun fun _ => .pure id

theorem declModifiers_proceeds : Proceeds kinds depth declModifiers := by
  rw [declModifiers_eq]
  exact iterate_proceeds externRound_repeats

theorem decl_advances
    {isPub : Bool}
    (advances : InnerAdvances kinds depth inner) :
    Advances kinds depth (decl inner start isPub) := by
  refine .bind declModifiers_proceeds fun isExtern => .look current_peeks fun kind => ?_
  split
  case h_1 => exact fnDecl_advances advances
  case h_2 | h_3 => exact varDecl_advances advances
  case h_4 => exact .mismatch

/-- A field reads at least its name or its type. -/
theorem containerField_advances (advances : InnerAdvances kinds depth inner) :
    Advances kinds depth (containerField inner) := by
  have restProceeds :
      ∀ {next : Option Ast → Parser Ast},
        (∀ value?, Proceeds kinds depth (next value?)) →
        Proceeds kinds depth (skipDeclModifiers >>= fun _ => after? .equal (expr inner) >>= next) :=
    fun finishes => .bind skipDeclModifiers_proceeds fun _ =>
      .bind (after?_proceeds nofun (expr_advances advances)) finishes
  have namelessAdvances :
      ∀ start : TokenIndex,
        Advances kinds depth (inner.typeExpr >>= fun type => skipDeclModifiers >>= fun _ =>
          after? .equal (expr inner) >>= fun value? =>
            finish (.containerField none) type.head.first start
              ((.typeExpr, type) :: childIn .value value?)) :=
    fun _ => .first advances.typeExpr fun _ => restProceeds fun _ => .finish
  refine .look here_peeks fun start => .bind (accept_moves nofun) fun _ => ?_
  refine moves_isAt ?_ fun _ _ => .look peek_peeks fun second => (namelessAdvances start).from
  refine .look peek_peeks fun second => ?_
  split
  · refine .advance nofun fun name => .bind (after?_proceeds nofun advances.typeExpr) fun _ => ?_
    exact restProceeds fun _ => .finish
  · exact (namelessAdvances start).from

theorem skipTestName_proceeds : Proceeds kinds depth skipTestName := by
  refine .look isAt_peeks fun atBody => ?_
  cases atBody with
  | true => exact .pure id
  | false => exact .bind advance_proceeds fun _ => .pure id

theorem testDecl_advances (advances : InnerAdvances kinds depth inner) :
    Advances kinds depth (testDecl inner) := by
  refine .bind advance_proceeds fun main => .bind skipTestName_proceeds fun _ => ?_
  exact .look here_peeks fun _ => .first (block_advances advances) fun _ => .finish

theorem containerMember_advances (advances : InnerAdvances kinds depth inner) :
    Advances kinds depth (containerMember inner) := by
  refine .look current_peeks fun first => .look peek_peeks fun second => ?_
  split
  case h_1 => exact testDecl_advances advances
  case h_2 =>
      refine .bind advance_proceeds fun start => ?_
      exact .first (block_advances advances) fun _ => .finish
  case h_3 =>
      refine .look here_peeks fun start => .bind (accept_moves nofun) fun isPub => ?_
      refine .accept? nofun (fun main => .bind (expr_advances advances) fun _ => ?_) ?_
      · exact .bind (expect_advances nofun) fun _ => .finish
      · refine .look current_peeks fun kind => ?_
        split
        · exact decl_advances advances
        · refine .first (containerField_advances advances) fun field => ?_
          refine .look isAt_peeks fun isLast => ?_
          cases isLast with
          | true => exact .pure id
          | false => exact .bind (expect_advances nofun) fun _ => .pure id

theorem memberRound_repeats (advances : InnerAdvances kinds depth inner) :
    Repeats kinds depth (memberRound inner) := by
  refine .look current_peeks fun kind => ?_
  split
  case h_3 => exact .first (containerMember_advances advances) fun _ => .pure id
  all_goals exact .pure id

theorem containerMembers_proceeds (advances : InnerAdvances kinds depth inner) :
    Proceeds kinds depth (containerMembers inner) := by
  rw [containerMembers_eq]
  exact collect_proceeds (memberRound_repeats advances)

theorem tagType?_proceeds (advances : InnerAdvances kinds depth inner) :
    Proceeds kinds depth (tagType? inner) := by
  refine .accept nofun (.look isAt_peeks fun hasArguments => ?_) ?_
  · cases hasArguments with
    | true => exact .bind skipParens_advances fun _ => .pure id
    | false => exact .pure id
  · exact .bind (expr_advances advances) fun _ => .pure id

theorem containerTag?_proceeds (advances : InnerAdvances kinds depth inner) :
    Proceeds kinds depth (containerTag? inner) := by
  refine .accept nofun (.bind (tagType?_proceeds advances) fun tag? => ?_) (.pure id)
  exact .bind (expect_advances nofun) fun _ => .pure id

/-- A container reads at least its braces. -/
theorem containerDecl_advances (advances : InnerAdvances kinds depth inner) :
    Advances kinds depth (containerDecl inner) := by
  refine .look here_peeks fun start => .bind (skipEither_proceeds nofun nofun) fun _ => ?_
  refine .look current_peeks fun kind => ?_
  split
  · exact .mismatch
  · refine .bind advance_proceeds fun main => ?_
    refine .bind (containerTag?_proceeds advances) fun tag? => ?_
    refine .first (expect_advances nofun) fun _ => ?_
    refine .bind (containerMembers_proceeds advances) fun members => ?_
    exact .bind (expect_advances nofun) fun _ => .finish

end ZigLint.Parser
