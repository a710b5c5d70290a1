import ZigLint.Proofs.Parser.DeclarationPlacement

namespace ZigLint.Parser

/-!
# Placement of primary and type expressions

Control flow, literals, suffixes and types enclose their parts like the other
productions do. Nothing here depends on how the next nesting level reads its two
productions, so placement passes from one level to the level around it, and by
induction to every level and to the members of a whole file.
-/

variable {kinds : Array TokenKind} {inner : Inner} {start : TokenIndex} {position : Nat}

/-- The token that is read, or the end of file that is not, is the one at the position. -/
theorem advance_reads
    (inside : position ≤ kinds.size) :
    Ensures kinds advance position fun index stop =>
      index = ⟨position⟩ ∧ Reads kinds position [] stop := by
  rw [ensures_advance]
  refine ⟨fun _ => ⟨rfl, ?_⟩, fun _ lt => ⟨rfl, ?_⟩⟩
  · exact .nothing (Nat.le_refl position) inside
  · exact .nothing (Nat.le_succ position) lt

theorem elseBranch?_yields
    (yields : InnerYields kinds inner) :
    Yields kinds Option.toList (elseBranch? inner) :=
  after?_yields (by decide) (.skip_bind skipCapture_skips fun _ => assignExpr_yields yields)

/-- An `if` starts at `start` and its keyword stands at the position. -/
theorem ifExpr_reads
    (yields : InnerYields kinds inner)
    (startLe : start.val ≤ position)
    (inside : position ≤ kinds.size) :
    Ensures kinds (ifExpr inner start) position fun ast stop =>
      Reads kinds start.val [ast] stop := by
  unfold ifExpr
  simp only [ensures_bind, ensures_finish]
  refine (advance_reads inside).mono fun main afterKeyword ⟨mainEq, keywordRead⟩ => ?_
  refine (ensures_expect (by decide)).mpr fun _ parenLt => ?_
  refine (expr_yields yields _ parenLt).mono fun condition afterCondition conditionReads => ?_
  refine (expect_after_reads (by decide) conditionReads).mono fun _ afterParen closed => ?_
  obtain ⟨-, -, closedReads⟩ := closed
  refine (skipCapture_skips _ closedReads.stop_le_size).mono fun _ afterCapture skipped => ?_
  refine (assignExpr_yields yields _ skipped.stop_le_size).mono
    fun thenBranch afterThen thenReads => ?_
  refine (elseBranch?_yields yields _ thenReads.stop_le_size).mono
    fun otherwise? stop otherwiseReads => ?_
  have partsRead :=
    (closedReads.append thenReads skipped.start_le_stop).append otherwiseReads (Nat.le_refl _)
  have keywordLe := keywordRead.start_le_stop
  have partsLe := partsRead.start_le_stop
  subst mainEq
  exact .of_finish startLe (by show position < stop; omega)
    (partsRead.from_earlier (by omega)) (by simp) rfl

theorem rangeEnd?_yields
    {isOpen : TokenKind → Bool}
    (yields : InnerYields kinds inner) :
    Yields kinds Option.toList (rangeEnd? inner isOpen) := by
  refine .skip_bind accept_skips fun isRange => ?_
  cases isRange with
  | false => exact .pure rfl
  | true =>
      refine .skip_bind current_skips fun kind => ?_
      split
      · exact .pure rfl
      · intro position inside
        simp only [ensures_bind, ensures_pure]
        exact expr_yields yields position inside

theorem forInput_yields
    (yields : InnerYields kinds inner) :
    Yields kinds id (forInput inner) := by
  intro position inside
  unfold forInput
  simp only [ensures_bind, ensures_pure]
  refine (expr_yields yields position inside).mono fun input afterInput inputReads => ?_
  refine (rangeEnd?_yields yields _ inputReads.stop_le_size).mono fun bound? stop boundReads => ?_
  exact inputReads.append boundReads (Nat.le_refl _)

theorem loopInputs_yields
    {isFor : Bool}
    (yields : InnerYields kinds inner) :
    Yields kinds id (loopInputs inner isFor) := by
  cases isFor with
  | true => exact separated_yields (forInput_yields yields)
  | false => exact singleton_yields (expr_yields yields)

theorem loopContinuation?_yields
    {isFor : Bool}
    (yields : InnerYields kinds inner) :
    Yields kinds Option.toList (loopContinuation? inner isFor) := by
  cases isFor with
  | true => exact .pure rfl
  | false =>
      refine after?_yields (by decide) (.skip_bind (expect_skips (by decide)) fun _ => ?_)
      intro position inside
      simp only [ensures_bind, ensures_pure]
      refine (assignExpr_yields yields position inside).mono
        fun continuation afterContinuation continuationReads => ?_
      refine (expect_after_reads (by decide) continuationReads).mono fun _ stop closed => ?_
      exact closed.2.2

/-- A loop starts at `start`, which may be a label, and its keyword stands at the position. -/
theorem loopExpr_reads
    (yields : InnerYields kinds inner)
    (startLe : start.val ≤ position)
    (inside : position ≤ kinds.size) :
    Ensures kinds (loopExpr inner start) position fun ast stop =>
      Reads kinds start.val [ast] stop := by
  unfold loopExpr
  simp only [ensures_bind, ensures_isAt, ensures_finish]
  refine (advance_reads inside).mono fun main afterKeyword ⟨mainEq, keywordRead⟩ => ?_
  refine (ensures_expect (by decide)).mpr fun _ parenLt => ?_
  refine (loopInputs_yields yields _ parenLt).mono fun inputs afterInputs inputsRead => ?_
  refine (expect_after_reads (by decide) inputsRead).mono fun _ afterParen closed => ?_
  obtain ⟨-, -, closedReads⟩ := closed
  refine (skipCapture_skips _ closedReads.stop_le_size).mono fun _ afterCapture skipped => ?_
  refine (loopContinuation?_yields yields _ skipped.stop_le_size).mono
    fun continuation? afterContinuation continuationReads => ?_
  refine (assignExpr_yields yields _ continuationReads.stop_le_size).mono
    fun body afterBody bodyReads => ?_
  refine (elseBranch?_yields yields _ bodyReads.stop_le_size).mono
    fun otherwise? stop otherwiseReads => ?_
  have partsRead :=
    ((closedReads.append continuationReads skipped.start_le_stop).append bodyReads
      (Nat.le_refl _)).append otherwiseReads (Nat.le_refl _)
  have keywordLe := keywordRead.start_le_stop
  have partsLe := partsRead.start_le_stop
  subst mainEq
  exact .of_finish startLe (by show position < stop; omega)
    (partsRead.from_earlier (by omega)) (by simp) (by split <;> rfl)

theorem prongItems_yields
    (yields : InnerYields kinds inner) :
    Yields kinds id (prongItems inner) := by
  refine collect_yields fun position inside => ?_
  simp only [ensures_bind]
  refine (expr_yields yields position inside).mono fun item afterItem itemReads => ?_
  refine (after?_yields (by decide) (expr_yields yields) _ itemReads.stop_le_size).mono
    fun upper? afterUpper upperReads => ?_
  have itemsRead := itemReads.append upperReads (Nat.le_refl _)
  refine (accept_skips _ itemsRead.stop_le_size).mono fun more stop skipped => ?_
  have itemsRead := itemsRead.append skipped (Nat.le_refl _)
  rw [List.append_nil] at itemsRead
  cases more with
  | false => exact ensures_pure.mpr itemsRead
  | true =>
      simp only [if_true, ensures_bind, ensures_isAt, ensures_pure]
      split <;> exact itemsRead

theorem prongSelector_yields
    (yields : InnerYields kinds inner) :
    Yields kinds id (prongSelector inner) := by
  refine .skip_bind accept_skips fun isElse => ?_
  cases isElse with
  | true => exact .pure rfl
  | false => exact prongItems_yields yields

theorem switchProng_yields
    (yields : InnerYields kinds inner) :
    Yields kinds (fun ast => [ast]) (switchProng inner) := by
  intro start inside
  unfold switchProng
  simp only [ensures_bind, ensures_here, ensures_finish]
  refine (accept_skips start inside).mono fun _ afterInline inlineRead => ?_
  refine (prongSelector_yields yields _ inlineRead.stop_le_size).mono
    fun items arrow itemsRead => ?_
  refine (ensures_expect (by decide)).mpr fun _ arrowLt => ?_
  refine (skipCapture_skips _ arrowLt).mono fun _ afterCapture skipped => ?_
  refine (assignExpr_yields yields _ skipped.stop_le_size).mono fun body stop bodyReads => ?_
  have inlineLe := inlineRead.start_le_stop
  have itemsLe := itemsRead.start_le_stop
  have captureLe := skipped.start_le_stop
  have bodyLt := bodyReads.start_lt_stop
  exact .of_finish (by show start ≤ arrow; omega) (by show arrow < stop; omega)
    ((itemsRead.append bodyReads (by omega)).from_earlier inlineLe) (by simp) rfl

theorem endProng_skips : Skips kinds endProng := by
  refine .skip_bind accept_skips fun found => ?_
  cases found with
  | true => exact .pure rfl
  | false =>
      refine .skip_bind isAt_skips fun atBrace => ?_
      cases atBrace with
      | true => exact .pure rfl
      | false =>
          refine .skip_bind previous_skips fun before => ?_
          split
          · exact .mismatch
          · exact .pure rfl

/-- A `switch` starts at `start` and its keyword stands at the position. -/
theorem switchExpr_reads
    (yields : InnerYields kinds inner)
    (startLe : start.val ≤ position)
    (inside : position ≤ kinds.size) :
    Ensures kinds (switchExpr inner start) position fun ast stop =>
      Reads kinds start.val [ast] stop := by
  unfold switchExpr
  simp only [ensures_bind, ensures_finish]
  refine (advance_reads inside).mono fun main afterKeyword ⟨mainEq, keywordRead⟩ => ?_
  refine (ensures_expect (by decide)).mpr fun _ parenLt => ?_
  refine (expr_yields yields _ parenLt).mono fun subject afterSubject subjectReads => ?_
  refine (expect_after_reads (by decide) subjectReads).mono fun _ afterParen closed => ?_
  refine (expect_after_reads (by decide) closed.2.2).mono fun _ afterBrace opened => ?_
  obtain ⟨-, -, openedReads⟩ := opened
  refine (collect_yields ?_ _ openedReads.stop_le_size).mono
    fun prongs afterProngs prongsRead => ?_
  · refine .skip_bind isAt_skips fun atEnd => ?_
    cases atEnd with
    | true => exact .pure rfl
    | false =>
        intro position inside
        simp only [Bool.false_eq_true, if_false, ensures_bind, ensures_pure]
        refine (switchProng_yields yields position inside).mono
          fun prong afterProng prongReads => ?_
        refine (endProng_skips _ prongReads.stop_le_size).mono fun _ stop ended => ?_
        exact prongReads.append ended (Nat.le_refl _)
  refine (expect_after_reads (by decide)
    (openedReads.append prongsRead (Nat.le_refl _))).mono fun _ stop closed => ?_
  obtain ⟨-, -, partsRead⟩ := closed
  have keywordLe := keywordRead.start_le_stop
  have partsLe := partsRead.start_le_stop
  subst mainEq
  exact .of_finish startLe (by show position < stop; omega)
    (partsRead.from_earlier (by omega)) (by simp) rfl

theorem curlySuffixExpr_yields
    (yields : InnerYields kinds inner) :
    Yields kinds (fun ast => [ast]) (curlySuffixExpr inner) := by
  intro start inside
  unfold curlySuffixExpr
  simp only [ensures_bind, ensures_here, ensures_isAt, ensures_ite, ensures_pure]
  refine (yields.typeExpr start inside).mono fun type afterType typeReads => ?_
  refine ⟨fun _ => ?_, fun _ => typeReads⟩
  exact initializerList_reads yields typeReads typeReads.start_le_stop

theorem operand?_yields
    (yields : InnerYields kinds inner) :
    Yields kinds Option.toList (operand? inner) := by
  refine .skip_bind current_skips fun kind => ?_
  split
  · exact .pure rfl
  · intro position inside
    simp only [ensures_bind, ensures_pure]
    exact expr_yields yields position inside

theorem skipJumpLabel_skips : Skips kinds skipJumpLabel := by
  refine .skip_bind current_skips fun kind => .skip_bind peek_skips fun next => ?_
  split
  · refine .skip_bind advance_skips fun _ => ?_
    exact .skip_bind advance_skips fun _ => .pure rfl
  · exact .pure rfl

/-- A node whose main token is its first one starts before its parts. -/
theorem Reads.headed
    {form : NodeForm}
    {children : List (Role × Ast)}
    {parts : List Ast}
    {start before stop : Nat}
    (partsRead : Reads kinds before parts stop)
    (startLt : start < before)
    (partsEq : children.map Prod.snd = parts)
    (noOwnToken : form.hasOwnToken = false) :
    Reads kinds start
      [.node { form, main := ⟨start⟩, first := ⟨start⟩, last := ⟨max (stop - 1) start⟩ } children]
      stop :=
  .of_finish (Nat.le_refl start) (Nat.lt_of_lt_of_le startLt partsRead.start_le_stop)
    (partsRead.from_earlier (Nat.le_of_lt startLt)) partsEq noOwnToken

theorem primaryExpr_yields
    (yields : InnerYields kinds inner) :
    Yields kinds (fun ast => [ast]) (primaryExpr inner) := by
  intro start inside
  unfold primaryExpr
  simp only [ensures_bind, ensures_here, ensures_current, ensures_peek]
  split
  case h_1 =>
      simp only [ensures_bind, ensures_finish]
      refine ensures_advance.mpr ⟨fun isEof => by simp_all, fun _ lt => ?_⟩
      refine (operand?_yields yields _ lt).mono fun value? stop valueReads => ?_
      exact valueReads.headed (Nat.lt_succ_self start) (by simp) rfl
  case h_2 =>
      simp only [ensures_bind, ensures_finish]
      refine ensures_advance.mpr ⟨fun isEof => by simp_all, fun _ lt => ?_⟩
      refine (skipJumpLabel_skips _ lt).mono fun _ afterLabel skipped => ?_
      refine (operand?_yields yields _ skipped.stop_le_size).mono fun value? stop valueReads => ?_
      exact valueReads.headed skipped.start_le_stop (by simp) rfl
  case h_3 =>
      simp only [ensures_bind, ensures_finish]
      refine ensures_advance.mpr ⟨fun isEof => by simp_all, fun _ lt => ?_⟩
      refine (skipJumpLabel_skips _ lt).mono fun _ stop skipped => ?_
      exact skipped.headed (Nat.lt_succ_self start) rfl rfl
  case h_4 => exact ifExpr_reads yields (Nat.le_refl start) inside
  case h_5 | h_6 => exact loopExpr_reads yields (Nat.le_refl start) inside
  case h_7 | h_8 =>
      simp only [ensures_bind]
      refine ensures_advance.mpr ⟨fun isEof => by simp_all, fun _ lt => ?_⟩
      exact loopExpr_reads yields (Nat.le_succ start) lt
  case h_9 => exact switchExpr_reads yields (Nat.le_refl start) inside
  case h_10 =>
      exact (block_reads yields (Nat.le_refl start)).mono fun _ _ reads => reads.1
  case h_11 =>
      simp only [ensures_bind]
      refine (advance_skips start inside).mono fun _ afterLabel label => ?_
      refine (advance_skips _ label.stop_le_size).mono fun _ afterColon colon => ?_
      have startLe := Nat.le_trans label.start_le_stop colon.start_le_stop
      exact (block_reads yields startLe).mono fun _ _ reads => reads.1
  case h_12 | h_13 | h_14 =>
      simp only [ensures_bind]
      refine (advance_skips start inside).mono fun _ afterLabel label => ?_
      refine (advance_skips _ label.stop_le_size).mono fun _ afterColon colon => ?_
      refine (accept_skips _ colon.stop_le_size).mono fun _ afterInline inlineRead => ?_
      have colonLe := Nat.le_trans label.start_le_stop colon.start_le_stop
      exact loopExpr_reads yields (Nat.le_trans colonLe inlineRead.start_le_stop)
        inlineRead.stop_le_size
  case h_15 => exact curlySuffixExpr_yields yields start inside

theorem unaryExpr_yields
    (yields : InnerYields kinds inner) :
    Yields kinds (fun ast => [ast]) (unaryExpr inner) := by
  intro start inside
  unfold unaryExpr
  simp only [ensures_bind, ensures_here, ensures_current]
  split
  case h_8 =>
      exact Yields.skip_bind advance_skips (fun _ => yields.prefixExpr) start inside
  case h_9 => exact primaryExpr_yields yields start inside
  all_goals
    simp only [ensures_bind, ensures_finish]
    refine ensures_advance.mpr ⟨fun isEof => by simp_all, fun _ lt => ?_⟩
    exact prefixed_reads yields.prefixExpr rfl (Nat.lt_succ_self start) lt

theorem errorNames_skips : Skips kinds errorNames := by
  refine .skip_bind (repeatWhile_skips ?_) fun _ => ?_
  · refine .skip_bind isAt_skips fun atEnd => ?_
    cases atEnd with
    | true => exact .pure rfl
    | false => exact .skip_bind (expect_skips (by decide)) fun _ => accept_skips
  · exact .skip_bind (expect_skips (by decide)) fun _ => .pure rfl

/-- A leaf is the tokens that have been read since its first one. -/
theorem finishLeaf_reads
    {form : NodeForm}
    {start stop : Nat}
    (read : Reads kinds (start + 1) [] stop)
    (noOwnToken : form.hasOwnToken = false) :
    Ensures kinds (finishLeaf form ⟨start⟩) stop fun ast stop =>
      Reads kinds start [ast] stop :=
  ensures_finish.mpr (read.headed (Nat.lt_succ_self start) rfl noOwnToken)

/-- Tokens of one kind are read from the first of them on. -/
theorem acceptAll_reads
    {kind : TokenKind}
    (notEof : kind ≠ .eof)
    (atKind : kindAt kinds position = kind) :
    Ensures kinds (repeatWhile (accept kind)) position fun _ stop =>
      Reads kinds (position + 1) [] stop := by
  -- Before the first round nothing has been read; after it at least one token has.
  refine ensures_iterate_after
    (fun _ middle => middle = position ∨ Reads kinds (position + 1) [] middle)
    (fun _ stop => Reads kinds (position + 1) [] stop) ?_ (fun _ _ => .inr) (.inl rfl)
  intro _ middle before
  simp only [ensures_bind]
  refine (ensures_accept notEof).mpr ⟨fun _ lt => ?_, fun notKind => ?_⟩
  · refine ensures_pure.mpr (.nothing ?_ lt)
    rcases before with rfl | read
    · exact Nat.le_refl _
    · exact Nat.le_succ_of_le read.start_le_stop
  · rcases before with rfl | read
    · exact (notKind atKind).elim
    · exact ensures_pure.mpr read

theorem primaryTypeExpr_yields
    (yields : InnerYields kinds inner) :
    Yields kinds (fun ast => [ast]) (primaryTypeExpr inner) := by
  intro start inside
  unfold primaryTypeExpr
  simp only [ensures_bind, ensures_here, ensures_current, ensures_peek]
  split
  case h_1 =>
      simp only [ensures_bind, ensures_finish]
      refine ensures_advance.mpr ⟨fun isEof => by simp_all, fun _ lt => ?_⟩
      refine (callArguments_reads yields).mono fun arguments stop argumentsRead => ?_
      exact argumentsRead.headed (by omega) (by simp) rfl
  case h_2 | h_3 =>
      simp only [ensures_bind]
      refine ensures_advance.mpr ⟨fun isEof => by simp_all, fun _ lt => ?_⟩
      exact ensures_finish.mpr (.of_identifier lt)
  case h_4 | h_5 | h_6 | h_8 =>
      simp only [ensures_bind]
      refine ensures_advance.mpr ⟨fun isEof => by simp_all, fun _ lt => ?_⟩
      exact finishLeaf_reads (.nothing (Nat.le_refl _) lt) rfl
  case h_7 atLine =>
      simp only [ensures_bind]
      refine (acceptAll_reads (by decide) atLine).mono fun _ stop read => ?_
      exact finishLeaf_reads read rfl
  case h_9 atDot atName =>
      simp only [ensures_bind, ensures_finish]
      refine ensures_advance.mpr ⟨fun isEof => by simp_all, fun _ _ => ?_⟩
      refine ensures_advance.mpr ⟨fun isEof => by simp_all, fun _ lt => ?_⟩
      exact .of_finish (Nat.le_succ start) (Nat.lt_succ_self (start + 1))
        (.nothing (by show start ≤ start + 1 + 1; omega) lt) rfl rfl
  case h_10 =>
      simp only [ensures_bind]
      refine ensures_advance.mpr ⟨fun isEof => by simp_all, fun _ lt => ?_⟩
      exact initializerList_reads yields (.nothing (Nat.le_succ start) lt) (Nat.le_succ start)
  case h_11 =>
      simp only [ensures_bind, ensures_finish]
      refine (advance_skips start inside).mono fun _ afterError error => ?_
      refine (advance_skips _ error.stop_le_size).mono fun _ afterDot dot => ?_
      refine (ensures_expect (by decide)).mpr fun _ lt => ?_
      have startLe := Nat.le_trans error.start_le_stop dot.start_le_stop
      exact .of_finish startLe (Nat.lt_succ_self afterDot)
        (.nothing (Nat.le_succ_of_le startLe) lt) rfl rfl
  case h_12 =>
      simp only [ensures_bind]
      refine ensures_advance.mpr ⟨fun isEof => by simp_all, fun _ lt => ?_⟩
      refine (advance_skips _ lt).mono fun _ afterBrace brace => ?_
      refine (errorNames_skips _ brace.stop_le_size).mono fun _ stop names => ?_
      exact finishLeaf_reads (names.from_earlier brace.start_le_stop) rfl
  case h_13 => exact prototype_reads yields (Nat.le_refl start)
  case h_14 =>
      simp only [ensures_bind, ensures_finish]
      refine ensures_advance.mpr ⟨fun isEof => by simp_all, fun _ lt => ?_⟩
      refine (expr_yields yields _ lt).mono fun expression afterExpression expressionReads => ?_
      refine (expect_after_reads (by decide) expressionReads).mono fun _ stop closed => ?_
      exact closed.2.2.headed (Nat.lt_succ_self start) rfl rfl
  case h_25 =>
      simp only [ensures_bind, ensures_finish]
      refine ensures_advance.mpr ⟨fun isEof => by simp_all, fun _ lt => ?_⟩
      exact prefixed_reads yields.typeExpr rfl (Nat.lt_succ_self start) lt
  case h_26 => exact ifExpr_reads yields (Nat.le_refl start) inside
  case h_27 => exact switchExpr_reads yields (Nat.le_refl start) inside
  case h_28 =>
      rw [ensures_mismatch]
      trivial
  all_goals exact containerDecl_yields yields start inside

theorem indexParts_yields
    (yields : InnerYields kinds inner) :
    Yields kinds id (indexParts inner) := by
  intro position inside
  unfold indexParts
  simp only [ensures_bind, ensures_pure]
  refine (expr_yields yields position inside).mono fun index afterIndex indexReads => ?_
  refine (rangeEnd?_yields yields _ indexReads.stop_le_size).mono
    fun stop? afterStop stopReads => ?_
  refine (after?_yields (by decide) (expr_yields yields) _ stopReads.stop_le_size).mono
    fun sentinel? afterSentinel sentinelReads => ?_
  have partsRead :=
    indexReads.append (stopReads.append sentinelReads (Nat.le_refl _)) (Nat.le_refl _)
  refine (expect_after_reads (by decide) partsRead).mono fun _ stop closed => ?_
  exact closed.2.2

/-- A suffix turns the subject before it into the first child of its node. -/
theorem suffixed_reads
    {form : NodeForm}
    {role : Role}
    {subject : Ast}
    {children : List (Role × Ast)}
    {parts : List Ast}
    {start main before stop : Nat}
    (subjectReads : Reads kinds start [subject] before)
    (partsRead : Reads kinds before parts stop)
    (mainLe : before ≤ main)
    (mainLt : main < stop)
    (partsEq : children.map Prod.snd = parts)
    (noOwnToken : form.hasOwnToken = false) :
    Reads kinds start
      [.node { form, main := ⟨main⟩, first := ⟨start⟩, last := ⟨max (stop - 1) start⟩ }
        ((role, subject) :: children)]
      stop := by
  have subjectLt := subjectReads.start_lt_stop
  exact .of_finish (by show start ≤ main; omega) mainLt
    (subjectReads.append partsRead (Nat.le_refl before)) (by simp [partsEq]) noOwnToken

/--
A suffix expression is read whole.

Along a chain of suffixes the subject starts where the chain does and reaches
up to the position.
-/
theorem suffixExpr_yields
    (yields : InnerYields kinds inner) :
    Yields kinds (fun ast => [ast]) (suffixExpr inner) := by
  intro start inside
  unfold suffixExpr
  simp only [ensures_bind, ensures_here]
  refine (primaryTypeExpr_yields yields start inside).mono
    fun subject afterSubject subjectReads => ?_
  refine ensures_iterate (fun ast stop => Reads kinds start [ast] stop) ?_ subjectReads
  intro subject position subjectReads
  simp only [ensures_bind, ensures_current, ensures_peek]
  split
  case h_1 | h_2 =>
      simp only [ensures_bind, ensures_finish, ensures_pure]
      refine ensures_advance.mpr ⟨fun isEof => by simp_all, fun _ _ => ?_⟩
      refine ensures_advance.mpr ⟨fun isEof => by simp_all, fun _ lt => ?_⟩
      exact suffixed_reads subjectReads (.nothing (by omega) lt) (Nat.le_succ position)
        (Nat.lt_succ_self (position + 1)) rfl rfl
  case h_3 | h_4 =>
      simp only [ensures_bind, ensures_finish, ensures_pure]
      refine ensures_advance.mpr ⟨fun isEof => by simp_all, fun _ lt => ?_⟩
      exact suffixed_reads subjectReads (.nothing (Nat.le_succ position) lt)
        (Nat.le_refl position) (Nat.lt_succ_self position) rfl rfl
  case h_5 =>
      simp only [ensures_bind, ensures_finish, ensures_pure]
      refine ensures_advance.mpr ⟨fun isEof => by simp_all, fun _ lt => ?_⟩
      refine (indexParts_yields yields _ lt).mono fun parts stop partsRead => ?_
      exact suffixed_reads subjectReads (partsRead.from_earlier (Nat.le_succ position))
        (Nat.le_refl position) partsRead.start_le_stop (map_snd_childrenIn _ _) rfl
  case h_6 =>
      simp only [ensures_bind, ensures_here, ensures_finish, ensures_pure]
      refine (callArguments_reads yields).mono fun arguments stop argumentsRead => ?_
      exact suffixed_reads subjectReads (argumentsRead.from_earlier (Nat.le_succ position))
        (Nat.le_refl position) argumentsRead.start_le_stop (map_snd_childrenIn _ _) rfl
  case h_7 => exact ensures_pure.mpr subjectReads

theorem errorUnionExpr_yields
    (yields : InnerYields kinds inner) :
    Yields kinds (fun ast => [ast]) (errorUnionExpr inner) := by
  intro start inside
  unfold errorUnionExpr
  simp only [ensures_bind, ensures_here]
  refine (suffixExpr_yields yields start inside).mono fun errors position errorsRead => ?_
  refine (ensures_accept? (by decide)).mpr ⟨fun _ lt => ?_, fun _ => ?_⟩
  · simp only [ensures_bind, ensures_finish]
    exact joined_reads yields.typeExpr rfl errorsRead (Nat.lt_succ_self position) lt
  · exact ensures_pure.mpr errorsRead

theorem bracketBounds_yields
    (yields : InnerYields kinds inner) :
    Yields kinds Prod.fst (bracketBounds inner) := by
  have sentinel_yields : Yields kinds Option.toList (after? .colon (expr inner)) :=
    after?_yields (by decide) (expr_yields yields)
  refine .skip_bind current_skips fun kind => ?_
  split
  case h_1 => exact .pure rfl
  case h_2 =>
      refine .skip_bind advance_skips fun _ => .skip_bind accept_skips fun _ => ?_
      intro position inside
      simp only [ensures_bind, ensures_pure]
      exact sentinel_yields position inside
  case h_3 =>
      refine .skip_bind advance_skips fun _ => ?_
      intro position inside
      simp only [ensures_bind, ensures_pure]
      exact expr_yields yields position inside
  case h_4 =>
      intro position inside
      simp only [ensures_bind, ensures_pure]
      refine (expr_yields yields position inside).mono fun length afterLength lengthReads => ?_
      refine (sentinel_yields _ lengthReads.stop_le_size).mono
        fun sentinel? stop sentinelReads => ?_
      exact lengthReads.append sentinelReads (Nat.le_refl _)

/-- A bracketed type starts with its bracket at the position. -/
theorem bracketType_reads
    (yields : InnerYields kinds inner)
    (notEof : kindAt kinds position ≠ .eof) :
    Ensures kinds (bracketType inner ⟨position⟩) position fun ast stop =>
      Reads kinds position [ast] stop := by
  unfold bracketType
  simp only [ensures_bind, ensures_ite, ensures_finish]
  refine ensures_advance.mpr ⟨fun isEof => (notEof isEof).elim, fun _ lt => ?_⟩
  refine (bracketBounds_yields yields _ lt).mono fun (bounds, isArray) afterBounds boundsRead => ?_
  refine (expect_after_reads (by decide) boundsRead).mono fun _ afterBracket closed => ?_
  obtain ⟨-, -, closedReads⟩ := closed
  refine (skipPointerModifiers_skips _ closedReads.stop_le_size).mono
    fun _ afterModifiers skipped => ?_
  refine (yields.typeExpr _ skipped.stop_le_size).mono fun element stop elementReads => ?_
  have partsRead := closedReads.append elementReads skipped.start_le_stop
  constructor
  · intro _
    exact partsRead.headed (Nat.lt_succ_self position) (by simp) rfl
  · intro _
    exact partsRead.headed (Nat.lt_succ_self position) (by simp) rfl

theorem wrappedTypeExpr_yields
    (yields : InnerYields kinds inner) :
    Yields kinds (fun ast => [ast]) (wrappedTypeExpr inner) := by
  intro start inside
  unfold wrappedTypeExpr
  simp only [ensures_bind, ensures_here, ensures_current]
  split
  case h_1 =>
      simp only [ensures_bind, ensures_finish]
      refine ensures_advance.mpr ⟨fun isEof => by simp_all, fun _ lt => ?_⟩
      exact prefixed_reads yields.typeExpr rfl (Nat.lt_succ_self start) lt
  case h_2 | h_3 =>
      simp only [ensures_bind, ensures_finish]
      refine ensures_advance.mpr ⟨fun isEof => by simp_all, fun _ lt => ?_⟩
      refine (skipPointerModifiers_skips _ lt).mono fun _ afterModifiers skipped => ?_
      exact prefixed_reads yields.typeExpr rfl skipped.start_le_stop skipped.stop_le_size
  case h_4 atBracket => exact bracketType_reads yields (by rw [atBracket]; decide)
  case h_5 => exact errorUnionExpr_yields yields start inside

/-- At every nesting level both productions yield a node in order. -/
theorem levels_yields (count : Nat) : InnerYields kinds (levels count) := by
  induction count with
  | zero => exact ⟨.mismatch, .mismatch⟩
  | succ count inductionHypothesis =>
      exact ⟨unaryExpr_yields inductionHypothesis, wrappedTypeExpr_yields inductionHypothesis⟩

/--
The members of a whole file stand in order from the first token on, and another name may
stand after them.
-/
theorem file_reads :
    Ensures kinds file 0 fun members stop =>
      Reads kinds 0 members stop ∧ NameMayStart kinds stop ∧ kindAt kinds stop = .eof := by
  unfold file
  simp only [ensures_bind, ensures_isAt, ensures_ite, ensures_pure, ensures_mismatch]
  refine (containerMembers_reads (levels_yields maxLevels) (Nat.zero_le _) (.inl rfl)).mono
    fun members stop ⟨membersRead, mayStart⟩ => ?_
  refine ⟨fun atEnd => ?_, fun _ => trivial⟩
  have atEof : kindAt kinds stop = .eof := by simpa using atEnd
  exact ⟨membersRead, mayStart.resolve_right (by simp [atEof]), atEof⟩

end ZigLint.Parser
