import ZigLint.Proofs.Parser.ExpressionNesting

namespace ZigLint.Parser

/-!
# Nesting of declarations, blocks and containers

Blocks, parameter lists and containers close the brackets they open. A test and
the tag of a container are read as their keywords announce them: the token after
`test` is passed over, and so are the arguments of an `enum` in a tag.
-/

open Brackets

variable
  {kinds : Array TokenKind}
  {inner : Inner}
  {start : TokenIndex}
  {ahead : List TokenKind}
  {position : Nat}
  {opened : List Opened}

/-- A binding starts with an ordinary keyword. -/
theorem varDecl_keeps
    {kind : TokenKind}
    {isPub isExtern : Bool}
    (keeps : InnerKeeps kinds inner)
    (ordinary : isOrdinary kind = true) :
    KeepsFrom kinds (kind :: ahead) (varDecl inner start isPub isExtern) := by
  refine .look isAt_looks fun isMutable => .advance ordinary fun main => ?_
  refine Keeps.from (.bind (expect_keeps rfl) fun name => ?_)
  refine .bind (after?_keeps rfl keeps.typeExpr) fun type? => ?_
  refine .bind skipDeclModifiers_keeps fun _ => ?_
  refine .bind (after?_keeps rfl (expr_keeps keeps)) fun value? => ?_
  exact .bind (expect_keeps rfl) fun _ => finish_keeps

theorem endStatement_keeps : Keeps kinds endStatement := by
  refine .look previous_looks fun before => ?_
  split
  · exact .bind (accept_keeps rfl) fun _ => .pure
  · exact .bind (expect_keeps rfl) fun _ => .pure

theorem statement_keeps (keeps : InnerKeeps kinds inner) : Keeps kinds (statement inner) := by
  refine .look here_looks fun start => keeps_current_peek fun first second => ?_
  split
  case h_1 | h_2 => exact varDecl_keeps keeps rfl
  case h_3 | h_4 => exact .advance rfl fun _ => varDecl_keeps keeps rfl
  case h_5 | h_6 =>
      refine .advance_capture rfl fun _ _ => .bind (assignExpr_keeps keeps) fun _ => ?_
      exact .bind endStatement_keeps fun _ => finish_keeps
  case h_7 =>
      refine Keeps.from (.bind (assignExpr_keeps keeps) fun expression => ?_)
      exact .bind endStatement_keeps fun _ => .pure

/-- The braces of a block enclose its statements. -/
theorem block_keeps (keeps : InnerKeeps kinds inner) : Keeps kinds (block inner start) := by
  refine expect_opens rfl fun brace => .after (collect_keeps ?_) fun statements => ?_
  · refine .look isAt_looks fun atEnd => ?_
    cases atEnd with
    | true => exact .pure
    | false =>
        refine .look isAt_looks fun atEof => ?_
        cases atEof with
        | true => exact .mismatch
        | false => exact .bind (statement_keeps keeps) fun _ => .pure
  · exact .expect rfl fun _ => finish_keeps

theorem parameterName?_keeps : Keeps kinds parameterName? := by
  refine keeps_current_peek fun first second => ?_
  split
  · exact .advance rfl fun _ => .advance rfl fun _ => .pure
  · exact .pure

theorem parameterType_keeps (keeps : InnerKeeps kinds inner) :
    Keeps kinds (parameterType inner) := by
  refine .bind (accept?_keeps rfl) fun found => ?_
  cases found with
  | some token => exact finish_keeps
  | none => exact keeps.typeExpr

theorem parameter?_keeps (keeps : InnerKeeps kinds inner) : Keeps kinds (parameter? inner) := by
  refine .look here_looks fun start => .bind (accept_keeps rfl) fun isVariadic => ?_
  cases isVariadic with
  | true => exact .pure
  | false =>
      refine .bind (skipEither_keeps rfl rfl) fun _ => .bind parameterName?_keeps fun name => ?_
      refine .bind (parameterType_keeps keeps) fun type => ?_
      exact .bind finish_keeps fun _ => .pure

theorem returnType_keeps (keeps : InnerKeeps kinds inner) : Keeps kinds (returnType inner) := by
  refine .bind (accept?_keeps rfl) fun found => ?_
  cases found with
  | some bang => exact .bind keeps.typeExpr fun _ => finish_keeps
  | none => exact keeps.typeExpr

/-- The parentheses of a prototype enclose its parameters. -/
theorem prototype_keeps
    {isPub isExtern : Bool}
    (keeps : InnerKeeps kinds inner) :
    Keeps kinds (prototype inner start isPub isExtern) := by
  refine .bind (expect_keeps rfl) fun main => .bind (accept?_keeps rfl) fun name => ?_
  refine expect_opens rfl fun _ => .after (collect_keeps ?_) fun parameters => ?_
  · refine .look isAt_looks fun atEnd => ?_
    cases atEnd with
    | true => exact .pure
    | false =>
        refine .bind (parameter?_keeps keeps) fun parameter => .look isAt_looks fun isLast => ?_
        cases isLast with
        | true => exact .pure
        | false => exact .bind (expect_keeps rfl) fun _ => .pure
  · refine .expect rfl fun _ => .bind skipDeclModifiers_keeps fun _ => ?_
    exact .bind (returnType_keeps keeps) fun _ => finish_keeps

theorem fnBody?_keeps (keeps : InnerKeeps kinds inner) : Keeps kinds (fnBody? inner) := by
  refine .look isAt_looks fun hasBody => ?_
  cases hasBody with
  | true => exact .look here_looks fun _ => .bind (block_keeps keeps) fun _ => .pure
  | false => exact .bind (expect_keeps rfl) fun _ => .pure

theorem fnDecl_keeps
    {isPub isExtern : Bool}
    (keeps : InnerKeeps kinds inner) :
    Keeps kinds (fnDecl inner start isPub isExtern) := by
  refine .bind (prototype_keeps keeps) fun prototype => ?_
  exact .bind (fnBody?_keeps keeps) fun _ => finish_keeps

theorem declModifiers_keeps : Keeps kinds declModifiers := by
  refine iterate_keeps fun isExtern => keeps_current fun kind => ?_
  split
  case h_1 => exact .advance rfl fun _ => .bind (accept_keeps rfl) fun _ => .pure
  case h_7 => exact .pure
  all_goals exact .advance rfl fun _ => .pure

theorem decl_keeps
    {isPub : Bool}
    (keeps : InnerKeeps kinds inner) :
    Keeps kinds (decl inner start isPub) := by
  refine .bind declModifiers_keeps fun isExtern => keeps_current fun kind => ?_
  split
  case h_1 => exact Keeps.from (fnDecl_keeps keeps)
  case h_2 | h_3 => exact varDecl_keeps keeps rfl
  case h_4 => exact .mismatch

theorem containerField_keeps (keeps : InnerKeeps kinds inner) :
    Keeps kinds (containerField inner) := by
  have valueKeeps : Keeps kinds (after? .equal (expr inner)) :=
    after?_keeps rfl (expr_keeps keeps)
  have namelessKeeps :
      ∀ start : TokenIndex,
        Keeps kinds (inner.typeExpr >>= fun type => skipDeclModifiers >>= fun _ =>
          after? .equal (expr inner) >>= fun value? =>
            finish (.containerField none) type.head.first start
              ((.typeExpr, type) :: childIn .value value?)) := by
    intro start
    refine .bind keeps.typeExpr fun type => .bind skipDeclModifiers_keeps fun _ => ?_
    exact .bind valueKeeps fun _ => finish_keeps
  refine .look here_looks fun start => .bind (accept_keeps rfl) fun _ => ?_
  refine keeps_isAt (.look peek_looks fun second => ?_) (.look peek_looks fun second => ?_)
  · split
    · refine .advance rfl fun name => .bind (after?_keeps rfl keeps.typeExpr) fun type? => ?_
      exact .bind skipDeclModifiers_keeps fun _ => .bind valueKeeps fun _ => finish_keeps
    · exact (namelessKeeps start).from
  · exact namelessKeeps start

/-- The token after `test` is passed over unless it starts the body or ends the file. -/
theorem skipTestName_keeps
    (reaches : Reaches kinds position opened (.code .testName)) :
    Ensures kinds skipTestName position fun _ stop =>
      Stands kinds stop opened ∨ kindAt kinds stop = .eof := by
  unfold skipTestName
  simp only [ensures_bind, ensures_isAt]
  by_cases atBrace : kindAt kinds position = .lBrace
  · rw [beq_iff_eq.mpr atBrace]
    exact ensures_pure.mpr (.inl (reaches.stands (by rw [atBrace]; rfl)))
  · rw [beq_eq_false_iff_ne.mpr atBrace]
    simp only [Bool.false_eq_true, if_false, ensures_bind, ensures_pure]
    refine ensures_advance.mpr ⟨.inr, fun _ lt => .inl ?_⟩
    have passed : Reaches kinds (position + 1) opened (.code .nothing) :=
      reaches.follow lt (bne_iff_ne.mpr atBrace)
    exact passed.stands rfl

theorem testDecl_keeps (keeps : InnerKeeps kinds inner) :
    KeepsFrom kinds (.keyword .kwTest :: ahead) (testDecl inner) := by
  have restKeeps :
      ∀ main start : TokenIndex,
        Keeps kinds (block inner start >>= fun body =>
          finish .testDecl main main [(.operand, body)]) :=
    fun _ _ => .bind (block_keeps keeps) fun _ => finish_keeps
  intro position opened isAhead stands
  unfold testDecl
  refine ensures_bind.mpr ((advance_leaves rfl (by decide) isAhead stands).mono ?_)
  intro main afterKeyword reaches
  refine ensures_bind.mpr ((skipTestName_keeps reaches).mono fun _ afterName outcome => ?_)
  refine ensures_bind.mpr (ensures_here.mpr ?_)
  obtain stands | atEnd := outcome
  · exact restKeeps main ⟨afterName⟩ trivial stands
  · -- Without a brace there is no body.
    unfold block
    simp only [ensures_bind]
    refine (ensures_expect (by decide)).mpr fun atBrace _ => ?_
    rw [atEnd] at atBrace
    cases atBrace

theorem containerMember_keeps (keeps : InnerKeeps kinds inner) :
    Keeps kinds (containerMember inner) := by
  refine keeps_current_peek fun first second => ?_
  split
  case h_1 => exact testDecl_keeps keeps
  case h_2 =>
      refine .advance rfl fun start => Keeps.from (.bind (block_keeps keeps) fun _ => ?_)
      exact finish_keeps
  case h_3 =>
      refine Keeps.from (.look here_looks fun start => .bind (accept_keeps rfl) fun isPub => ?_)
      refine .bind (accept?_keeps rfl) fun found => ?_
      cases found with
      | some main =>
          refine .bind (expr_keeps keeps) fun _ => ?_
          exact .bind (expect_keeps rfl) fun _ => finish_keeps
      | none =>
          refine .look current_looks fun kind => ?_
          split
          · exact decl_keeps keeps
          · refine .bind (containerField_keeps keeps) fun field => ?_
            refine .look isAt_looks fun isLast => ?_
            cases isLast with
            | true => exact .pure
            | false => exact .bind (expect_keeps rfl) fun _ => .pure

theorem containerMembers_keeps (keeps : InnerKeeps kinds inner) :
    Keeps kinds (containerMembers inner) := by
  refine collect_keeps (.look current_looks fun kind => ?_)
  split
  case h_3 => exact .bind (containerMember_keeps keeps) fun _ => .pure
  all_goals exact .pure

/-- The arguments of an `enum` that stands for the tag itself are passed over. -/
theorem tagType?_keeps
    (keeps : InnerKeeps kinds inner)
    (reaches : Reaches kinds position opened (.code .tagType)) :
    Ensures kinds (tagType? inner) position fun _ stop => Stands kinds stop opened := by
  unfold tagType?
  simp only [ensures_bind]
  refine (ensures_accept (by decide)).mpr ⟨fun atEnum lt => ?_, fun noEnum => ?_⟩
  · have bare : Reaches kinds (position + 1) opened (.code .arguments) :=
      reaches.follow lt (by rw [atEnum]; rfl)
    simp only [if_true, ensures_bind, ensures_isAt]
    by_cases hasArguments : kindAt kinds (position + 1) = .lParen
    · rw [beq_iff_eq.mpr hasArguments]
      simp only [if_true, ensures_bind, ensures_pure]
      exact skipParens_ends bare
    · rw [beq_eq_false_iff_ne.mpr hasArguments]
      simp only [Bool.false_eq_true, if_false, ensures_pure]
      exact bare.stands (beq_eq_false_iff_ne.mpr hasArguments)
  · have stands : Stands kinds position opened :=
      reaches.stands (beq_eq_false_iff_ne.mpr noEnum)
    simp only [Bool.false_eq_true, if_false, ensures_bind, ensures_pure]
    exact expr_keeps keeps trivial stands

/-- The tag of a container stands in parentheses of its own. -/
theorem containerTag?_keeps
    (keeps : InnerKeeps kinds inner)
    (reaches : Reaches kinds position opened (.code .tag)) :
    Ensures kinds (containerTag? inner) position fun _ stop => Stands kinds stop opened := by
  unfold containerTag?
  simp only [ensures_bind]
  refine (ensures_accept (by decide)).mpr ⟨fun atParen lt => ?_, fun noParen => ?_⟩
  · have entered : Reaches kinds (position + 1) (.other .paren :: opened) (.code .tagType) :=
      reaches.follow lt (by rw [atParen]; rfl)
    simp only [if_true, ensures_bind]
    refine (tagType?_keeps keeps entered).mono fun tag? afterTag stands => ?_
    have closes : Closes kinds .paren (expect .rParen >>= fun _ => pure tag?) :=
      .expect rfl fun _ => .pure
    exact ensures_bind.mp (closes stands)
  · exact ensures_pure.mpr (reaches.stands (beq_eq_false_iff_ne.mpr noParen))

theorem after_of_containerKind?
    {kind : TokenKind}
    {container : ContainerKind}
    (introduces : containerKind? kind = some container) :
    Cue.after kind = .tag := by
  unfold containerKind? at introduces
  split at introduces
  case h_5 => cases introduces
  all_goals rfl

/-- The braces of a container enclose its members. -/
theorem containerDecl_keeps (keeps : InnerKeeps kinds inner) :
    Keeps kinds (containerDecl inner) := by
  refine .look here_looks fun start => .bind (skipEither_keeps rfl rfl) fun _ => ?_
  refine keeps_current fun kind => ?_
  cases introduces : containerKind? kind with
  | none => exact .mismatch
  | some container =>
      intro position opened isAhead stands
      have announces := after_of_containerKind? introduces
      refine ensures_bind.mpr ((advance_leaves announces (by decide) isAhead stands).mono ?_)
      intro main afterKeyword reaches
      refine ensures_bind.mpr ((containerTag?_keeps keeps reaches).mono ?_)
      intro tag? afterTag stands
      have membersKeep :
          Keeps kinds (expect .lBrace >>= fun _ => containerMembers inner >>= fun members =>
            expect .rBrace >>= fun _ => finish (.containerDecl container) main start
              (childIn .tagType tag? ++ childrenIn .member members)) :=
        expect_opens rfl fun _ => .after (containerMembers_keeps keeps) fun _ =>
          .expect rfl fun _ => finish_keeps
      exact membersKeep trivial stands

end ZigLint.Parser
