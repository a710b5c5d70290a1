import ZigLint.Proofs.Syntax.Placement

namespace ZigLint.Parser

/-!
# Placement of operator expressions

What is skipped only moves the position forward. Whatever the two productions
of the next nesting level yield, the operator expressions, arguments and
initializers over them yield nodes that stand in order among the tokens read.
-/

variable {kinds : Array TokenKind} {inner : Inner}

/-- Both productions of the next nesting level yield a node in order. -/
structure InnerYields
    (kinds : Array TokenKind)
    (inner : Inner) :
    Prop where
  prefixExpr : Yields kinds (fun ast => [ast]) inner.prefixExpr
  typeExpr : Yields kinds (fun ast => [ast]) inner.typeExpr

/-- An optional part that follows a token stands in order if the part itself does. -/
theorem after?_yields
    {kind : TokenKind}
    {parser : Parser Ast}
    (notEof : kind ≠ .eof)
    (yields : Yields kinds (fun ast => [ast]) parser) :
    Yields kinds Option.toList (after? kind parser) := by
  intro position inside
  rw [ensures_after? notEof]
  refine ⟨fun _ lt => ?_, fun _ => .nothing (Nat.le_refl _) inside⟩
  refine (yields (position + 1) lt).mono fun ast stop reads => ?_
  exact reads.from_earlier (Nat.le_succ position)

/-- Nodes that are collected in order stand in order. -/
theorem collect_yields
    {round : Parser (ForInStep (List Ast))}
    (yields : Yields kinds ForInStep.value round) :
    Yields kinds id (collect round) := by
  intro position inside
  refine ensures_collect (fun asts stop => Reads kinds position asts stop) ?_
    (.nothing (Nat.le_refl _) inside)
  intro before middle beforeReads
  refine (yields middle beforeReads.stop_le_size).mono fun step stop stepReads => ?_
  exact beforeReads.append stepReads (Nat.le_refl middle)

/-- A repetition of rounds that build nothing builds nothing. -/
theorem iterate_skips
    {round : α → Parser (ForInStep α)}
    {value : α}
    (skips : ∀ value, Skips kinds (round value)) :
    Skips kinds (iterate round value) := by
  intro position inside
  refine ensures_iterate (fun _ stop => Reads kinds position [] stop) ?_
    (.nothing (Nat.le_refl _) inside)
  intro value middle reads
  refine (skips value middle reads.stop_le_size).mono fun _ stop skipped => ?_
  exact reads.append skipped (Nat.le_refl middle)

theorem repeatWhile_skips
    {round : Parser Bool}
    (skips : Skips kinds round) :
    Skips kinds (repeatWhile round) := by
  refine iterate_skips fun _ => .skip_bind skips fun goesOn => ?_
  cases goesOn <;> exact .pure rfl

theorem skipEither_skips {one other : TokenKind} : Skips kinds (skipEither one other) := by
  refine .skip_bind accept_skips fun found => ?_
  cases found with
  | true => exact .pure rfl
  | false => exact .skip_bind accept_skips fun _ => .pure rfl

theorem skipParens_skips : Skips kinds skipParens := by
  refine .skip_bind (expect_skips (by decide)) fun _ => ?_
  refine .skip_bind (iterate_skips fun depth => ?_) fun _ => .pure rfl
  refine .skip_bind current_skips fun kind => ?_
  split
  · exact .skip_bind advance_skips fun _ => .pure rfl
  · exact .skip_bind advance_skips fun _ => .pure rfl
  · exact .mismatch
  · exact .skip_bind advance_skips fun _ => .pure rfl

theorem skipCapture_skips : Skips kinds skipCapture := by
  refine .skip_bind accept_skips fun opened => ?_
  cases opened with
  | false => exact .pure rfl
  | true =>
      refine repeatWhile_skips (.skip_bind accept_skips fun closed => ?_)
      cases closed with
      | true => exact .pure rfl
      | false =>
          refine .skip_bind isAt_skips fun atEnd => ?_
          cases atEnd with
          | true => exact .mismatch
          | false => exact .skip_bind advance_skips fun _ => .pure rfl

theorem skipDeclModifiers_skips : Skips kinds skipDeclModifiers := by
  refine repeatWhile_skips (.skip_bind current_skips fun kind => ?_)
  split
  case h_5 => exact .pure rfl
  all_goals
    refine .skip_bind advance_skips fun _ => ?_
    exact .skip_bind skipParens_skips fun _ => .pure rfl

theorem skipPointerModifiers_skips : Skips kinds skipPointerModifiers := by
  refine repeatWhile_skips (.skip_bind current_skips fun kind => ?_)
  split
  case h_6 => exact .pure rfl
  case h_4 | h_5 =>
    refine .skip_bind advance_skips fun _ => ?_
    exact .skip_bind skipParens_skips fun _ => .pure rfl
  all_goals exact .skip_bind advance_skips fun _ => .pure rfl

/-- An operator that starts a node is followed by the one child of that node. -/
theorem prefixed_reads
    {parser : Parser Ast}
    {form : NodeForm}
    {role : Role}
    {start before : Nat}
    (yields : Yields kinds (fun ast => [ast]) parser)
    (noOwnToken : form.hasOwnToken = false)
    (startLt : start < before)
    (inside : before ≤ kinds.size) :
    Ensures kinds parser before fun operand stop =>
      Reads kinds start
        [.node { form, main := ⟨start⟩, first := ⟨start⟩, last := ⟨max (stop - 1) start⟩ }
          [(role, operand)]] stop := by
  refine (yields before inside).mono fun operand stop reads => ?_
  have := reads.start_lt_stop
  exact .of_finish (Nat.le_refl start) (Nat.lt_trans startLt this)
    (reads.from_earlier (Nat.le_of_lt startLt)) rfl noOwnToken

/-- An operator stands between the two children of its node. -/
theorem joined_reads
    {parser : Parser Ast}
    {form : NodeForm}
    {leftRole rightRole : Role}
    {left : Ast}
    {start operator before : Nat}
    (yields : Yields kinds (fun ast => [ast]) parser)
    (noOwnToken : form.hasOwnToken = false)
    (leftReads : Reads kinds start [left] operator)
    (operatorLt : operator < before)
    (inside : before ≤ kinds.size) :
    Ensures kinds parser before fun right stop =>
      Reads kinds start
        [.node { form, main := ⟨operator⟩, first := ⟨start⟩, last := ⟨max (stop - 1) start⟩ }
          [(leftRole, left), (rightRole, right)]] stop := by
  refine (yields before inside).mono fun right stop reads => ?_
  have := reads.start_lt_stop
  exact .of_finish (Nat.le_of_lt leftReads.start_lt_stop) (Nat.lt_trans operatorLt this)
    (leftReads.append reads (Nat.le_of_lt operatorLt)) rfl noOwnToken

/--
Every level of operator expressions yields a node in order.

Along a chain of operators the operand on the left starts where the chain does
and reaches up to the position.
-/
theorem binaryExpr_yields
    (yields : InnerYields kinds inner)
    (level : Nat) :
    Yields kinds (fun ast => [ast]) (binaryExpr inner level) := by
  induction level with
  | zero => exact yields.prefixExpr
  | succ level inductionHypothesis =>
      intro start inside
      unfold binaryExpr
      simp only [ensures_bind, ensures_here]
      refine (inductionHypothesis start inside).mono fun operand afterOperand operandReads => ?_
      refine ensures_iterate (fun ast stop => Reads kinds start [ast] stop) ?_ operandReads
      intro left position leftReads
      simp only [ensures_bind, ensures_current, ensures_ite, ensures_finish, ensures_pure]
      refine ⟨fun isOperator => ?_, fun _ => leftReads⟩
      have notEof : kindAt kinds position ≠ .eof := by
        intro isEof
        simp [isEof, TokenKind.bindingPower?] at isOperator
      refine ensures_advance.mpr ⟨fun isEof => (notEof isEof).elim, fun _ lt => ?_⟩
      have noOwnToken :
          (if kindAt kinds position = .pipePipe then NodeForm.mergeErrorSets
            else .binaryOp).hasOwnToken = false := by
        split <;> rfl
      -- With or without a capture, the right operand is read after the operator.
      constructor
      · intro _
        refine (skipCapture_skips _ lt).mono fun _ afterCapture skipped => ?_
        exact joined_reads inductionHypothesis noOwnToken leftReads skipped.start_le_stop
          skipped.stop_le_size
      · intro _
        exact joined_reads inductionHypothesis noOwnToken leftReads (Nat.lt_succ_self position) lt

theorem expr_yields
    (yields : InnerYields kinds inner) :
    Yields kinds (fun ast => [ast]) (expr inner) :=
  binaryExpr_yields yields 7

theorem assignExpr_yields
    (yields : InnerYields kinds inner) :
    Yields kinds (fun ast => [ast]) (assignExpr inner) := by
  intro start inside
  unfold assignExpr
  simp only [ensures_bind, ensures_here, ensures_current]
  refine (expr_yields yields start inside).mono fun left position leftReads => ?_
  split
  case h_3 => exact ensures_pure.mpr leftReads
  all_goals
    simp only [ensures_bind, ensures_finish]
    refine ensures_advance.mpr ⟨fun isEof => by simp_all, fun _ lt => ?_⟩
    exact joined_reads (expr_yields yields) rfl leftReads (Nat.lt_succ_self position) lt

/-- Parts that are separated by commas stand in order. -/
theorem separated_yields
    {closing : TokenKind}
    {item : Parser (List Ast)}
    (yields : Yields kinds id item) :
    Yields kinds id (separated closing item) := by
  refine collect_yields (.skip_bind isAt_skips fun atEnd => ?_)
  cases atEnd with
  | true => exact .pure rfl
  | false =>
      intro position inside
      simp only [Bool.false_eq_true, if_false, ensures_bind]
      refine (yields position inside).mono fun parts afterParts partsRead => ?_
      refine (accept_skips afterParts partsRead.stop_le_size).mono fun more stop skipped => ?_
      have reads : Reads kinds position (parts ++ []) stop :=
        partsRead.append skipped (Nat.le_refl _)
      rw [List.append_nil] at reads
      cases more <;> exact ensures_pure.mpr reads

theorem singleton_yields
    {parser : Parser Ast}
    (yields : Yields kinds (fun ast => [ast]) parser) :
    Yields kinds id (List.singleton <$> parser) := by
  intro position inside
  rw [ensures_map]
  exact yields position inside

theorem expect_after_reads
    {kind : TokenKind}
    {asts : List Ast}
    {start position : Nat}
    (notEof : kind ≠ .eof)
    (reads : Reads kinds start asts position) :
    Ensures kinds (expect kind) position fun index stop =>
      index = ⟨position⟩ ∧ position < stop ∧ Reads kinds start asts stop := by
  rw [ensures_expect notEof]
  intro _ lt
  exact ⟨rfl, Nat.lt_succ_self position,
    reads.widen (Nat.le_refl start) (Nat.le_succ position) lt⟩

/-- Arguments stand after their opening parenthesis. -/
theorem callArguments_reads
    (yields : InnerYields kinds inner)
    {position : Nat} :
    Ensures kinds (callArguments inner) position fun arguments stop =>
      Reads kinds (position + 1) arguments stop := by
  unfold callArguments
  simp only [ensures_bind, ensures_pure]
  refine (ensures_expect (by decide)).mpr fun _ lt => ?_
  refine (separated_yields (singleton_yields (expr_yields yields)) _ lt).mono
    fun arguments afterArguments argumentsRead => ?_
  refine (expect_after_reads (by decide) argumentsRead).mono fun _ stop closed => ?_
  exact closed.2.2

theorem initializerEntry_yields
    (yields : InnerYields kinds inner) :
    Yields kinds (fun ast => [ast]) (initializerEntry inner) := by
  intro position inside
  unfold initializerEntry
  simp only [ensures_bind, ensures_current, ensures_peek]
  split
  case h_2 => exact expr_yields yields position inside
  case h_1 atDot atName atEqual =>
      simp only [ensures_bind, ensures_finish]
      refine ensures_advance.mpr ⟨fun isEof => by simp_all, fun _ _ => ?_⟩
      refine ensures_advance.mpr ⟨fun isEof => by simp_all, fun _ _ => ?_⟩
      refine ensures_advance.mpr ⟨fun isEof => by simp_all, fun _ afterEqual => ?_⟩
      refine (expr_yields yields _ afterEqual).mono fun value stop valueReads => ?_
      have := valueReads.start_lt_stop
      exact .of_finish (Nat.le_succ position) (by show position + 1 < stop; omega)
        (valueReads.from_earlier (by show position ≤ _; omega)) rfl rfl

/-- The initializer starts with its type, if it has one, and encloses its entries. -/
theorem initializerList_reads
    (yields : InnerYields kinds inner)
    {start : TokenIndex}
    {type? : Option Ast}
    {position : Nat}
    (typeReads : Reads kinds start.val type?.toList position)
    (startLe : start.val ≤ position) :
    Ensures kinds (initializerList inner start type?) position fun ast stop =>
      Reads kinds start.val [ast] stop := by
  unfold initializerList
  simp only [ensures_bind, ensures_finish]
  refine (ensures_expect (by decide)).mpr fun _ lt => ?_
  refine (separated_yields (singleton_yields (initializerEntry_yields yields)) _ lt).mono
    fun entries afterEntries entriesRead => ?_
  refine (expect_after_reads (by decide)
    (typeReads.append entriesRead (Nat.le_succ position))).mono fun _ stop closed => ?_
  obtain ⟨-, lastLt, partsRead⟩ := closed
  have := entriesRead.start_le_stop
  exact .of_finish startLe (by show position < stop; omega) partsRead (by simp) rfl

end ZigLint.Parser
