import ZigLint.Proofs.Parser.DeclarationCharges
import ZigLint.Proofs.Parser.PrimaryPlacement

namespace ZigLint.Parser

/-!
# Charges of primary and type expressions

Control flow, literals, suffixes and types take a half of their main token and
leave the first half of their first token free. A type starts at the first token it
reads, so charges pass from one nesting level to the level around it, and by
induction to the members of a whole file.
-/

variable {kinds : Array TokenKind} {inner : Inner} {start : TokenIndex} {position : Nat}

theorem elseBranch?_spends
    (spends : InnerSpends kinds inner) :
    Spends kinds 1 Option.toList (elseBranch? inner) :=
  .after? (.skip skipCapture_skips fun _ => assignExpr_spends spends)

theorem ifExpr_spends
    (spends : InnerSpends kinds inner) :
    Spends kinds 1 (fun ast => [ast]) (ifExpr inner start) := by
  refine .advance_expect_continues (by decide) fun main _ => ?_
  refine .part (expr_spends spends) fun condition => .skip (expect_skips (by decide)) fun _ => ?_
  refine .skip skipCapture_skips fun _ => .part (assignExpr_spends spends) fun thenBranch => ?_
  exact .part (elseBranch?_spends spends) fun otherwise? => .finish (by simp) rfl nofun

theorem rangeEnd?_spends
    {isOpen : TokenKind → Bool}
    (spends : InnerSpends kinds inner) :
    Spends kinds 1 Option.toList (rangeEnd? inner isOpen) := by
  refine .skip accept_skips fun isRange => ?_
  cases isRange with
  | false => exact .pure rfl
  | true =>
      refine .skip current_skips fun kind => ?_
      split
      · exact .pure rfl
      · exact (expr_spends spends).map fun _ => rfl

theorem forInput_spends
    (spends : InnerSpends kinds inner) :
    Spends kinds 1 id (forInput inner) :=
  .of_continues fun _ => .part (expr_spends spends) fun _ =>
    .part (rangeEnd?_spends spends) fun _ => .pure rfl

theorem loopInputs_spends
    {isFor : Bool}
    (spends : InnerSpends kinds inner) :
    Spends kinds 1 id (loopInputs inner isFor) := by
  cases isFor with
  | true => exact separated_spends (forInput_spends spends)
  | false => exact singleton_spends (expr_spends spends)

theorem loopContinuation?_spends
    {isFor : Bool}
    (spends : InnerSpends kinds inner) :
    Spends kinds 1 Option.toList (loopContinuation? inner isFor) := by
  cases isFor with
  | true => exact .pure rfl
  | false =>
      refine .after? (.skip (expect_skips (by decide)) fun _ => .of_continues fun lower => ?_)
      refine .part (assignExpr_spends spends) fun continuation => ?_
      exact .skip (expect_skips (by decide)) fun _ => .pure rfl

theorem loopExpr_spends
    (spends : InnerSpends kinds inner) :
    Spends kinds 1 (fun ast => [ast]) (loopExpr inner start) := by
  refine .skip isAt_skips fun isFor => .advance_expect_continues (by decide) fun main _ => ?_
  refine .part (loopInputs_spends spends) fun inputs => .skip (expect_skips (by decide)) fun _ => ?_
  refine .skip skipCapture_skips fun _ => ?_
  refine .part (loopContinuation?_spends spends) fun continuation? => ?_
  refine .part (assignExpr_spends spends) fun body => ?_
  refine .part (elseBranch?_spends spends) fun otherwise? => ?_
  exact .finish (by simp) (by split <;> rfl) (by split <;> nofun)

theorem prongItems_spends
    (spends : InnerSpends kinds inner) :
    Spends kinds 1 id (prongItems inner) := by
  refine .collect (.of_continues fun lower => .part (expr_spends spends) fun item => ?_)
  refine .part (expr_spends spends).after? fun upper? => .skip accept_skips fun more => ?_
  cases more with
  | false => exact .pure rfl
  | true =>
      refine .skip isAt_skips fun atArrow => ?_
      cases atArrow <;> exact .pure rfl

theorem prongSelector_spends
    (spends : InnerSpends kinds inner) :
    Spends kinds 1 id (prongSelector inner) := by
  refine .skip accept_skips fun isElse => ?_
  cases isElse with
  | true => exact .pure rfl
  | false => exact prongItems_spends spends

/-- A prong takes a half of its arrow, which stands between its values and its body. -/
theorem switchProng_spends
    (spends : InnerSpends kinds inner) :
    Spends kinds 1 (fun ast => [ast]) (switchProng inner) := by
  refine .skip here_skips fun start => .skip accept_skips fun _ => .of_continues fun lower => ?_
  refine .part (prongSelector_spends spends) fun items => ?_
  refine .expect_main (by decide) fun arrow charged lowerLe => .skip skipCapture_skips fun _ => ?_
  refine .part (assignExpr_spends spends) fun body => ?_
  exact .finish_between charged lowerLe (by simp) rfl nofun

theorem switchExpr_spends
    (spends : InnerSpends kinds inner) :
    Spends kinds 1 (fun ast => [ast]) (switchExpr inner start) := by
  refine .advance_expect_continues (by decide) fun main _ => ?_
  refine .part (expr_spends spends) fun subject => .skip (expect_skips (by decide)) fun _ => ?_
  refine .skip (expect_skips (by decide)) fun _ => .part (.collect ?_) fun prongs => ?_
  · refine .skip isAt_skips fun atEnd => ?_
    cases atEnd with
    | true => exact .pure rfl
    | false =>
        refine .of_continues fun lower => .part (switchProng_spends spends) fun prong => ?_
        exact .skip endProng_skips fun _ => .pure rfl
  · exact .skip (expect_skips (by decide)) fun _ => .finish (by simp) rfl nofun

theorem curlySuffixExpr_spends
    (spends : InnerSpends kinds inner) :
    Spends kinds 1 (fun ast => [ast]) (curlySuffixExpr inner) := by
  refine .skip here_skips fun start => .of_continues fun lower => ?_
  refine .part spends.typeExpr fun type => .skip isAt_skips fun atBrace => ?_
  cases atBrace with
  | true => exact initializerList_continues spends rfl
  | false => exact .pure rfl

theorem operand?_spends
    (spends : InnerSpends kinds inner) :
    Spends kinds 1 Option.toList (operand? inner) := by
  refine .skip current_skips fun kind => ?_
  split
  · exact .pure rfl
  · exact (expr_spends spends).map fun _ => rfl

theorem primaryExpr_spends
    (spends : InnerSpends kinds inner) :
    Spends kinds 1 (fun ast => [ast]) (primaryExpr inner) := by
  intro start inside
  refine ensures_bind.mpr (ensures_here.mpr (ensures_bind.mpr (ensures_current.mpr ?_)))
  refine ensures_bind.mpr (ensures_peek.mpr (ensures_bind.mpr (ensures_peek.mpr ?_)))
  split
  case h_1 =>
      refine advance_continues (by simp_all) (.part (operand?_spends spends) fun value? => ?_)
      exact .finish (by simp) rfl fun _ => rfl
  case h_2 =>
      refine advance_continues (by simp_all) (.skip skipJumpLabel_skips fun _ => ?_)
      exact .part (operand?_spends spends) fun value? => .finish (by simp) rfl nofun
  case h_3 =>
      refine advance_continues (by simp_all) (.skip skipJumpLabel_skips fun _ => ?_)
      exact .finish rfl rfl nofun
  case h_4 => exact ifExpr_spends spends start inside
  case h_5 | h_6 => exact loopExpr_spends spends start inside
  case h_7 | h_8 => exact Spends.skip advance_skips (fun _ => loopExpr_spends spends) start inside
  case h_9 => exact switchExpr_spends spends start inside
  case h_10 => exact block_spends spends start inside
  case h_11 =>
      refine Spends.skip advance_skips (fun _ => ?_) start inside
      exact .skip advance_skips fun _ => block_spends spends
  case h_12 | h_13 | h_14 =>
      refine Spends.skip advance_skips (fun _ => .skip advance_skips fun _ => ?_) start inside
      exact .skip accept_skips fun _ => loopExpr_spends spends
  case h_15 => exact curlySuffixExpr_spends spends start inside

theorem unaryExpr_spends
    (spends : InnerSpends kinds inner) :
    Spends kinds 1 (fun ast => [ast]) (unaryExpr inner) := by
  intro start inside
  refine ensures_bind.mpr (ensures_here.mpr (ensures_bind.mpr (ensures_current.mpr ?_)))
  split
  case h_8 => exact Spends.skip advance_skips (fun _ => spends.prefixExpr) start inside
  case h_9 => exact primaryExpr_spends spends start inside
  all_goals
    refine advance_continues (by simp_all) (.part spends.prefixExpr fun operand => ?_)
    exact .finish rfl rfl nofun

theorem primaryTypeExpr_spends
    (spends : InnerSpends kinds inner) :
    Spends kinds 1 (fun ast => [ast]) (primaryTypeExpr inner) := by
  intro start inside
  refine ensures_bind.mpr (ensures_here.mpr (ensures_bind.mpr (ensures_current.mpr ?_)))
  refine ensures_bind.mpr (ensures_peek.mpr ?_)
  split
  case h_1 =>
      refine advance_continues (by simp_all) (.part (callArguments_spends spends) fun _ => ?_)
      exact .finish (by simp) rfl nofun
  case h_2 | h_3 | h_4 | h_5 | h_6 | h_8 =>
      exact advance_continues (by simp_all) (.finish rfl rfl nofun)
  case h_7 atLine =>
      have leaf_continues :
          Continues kinds (2 * (start + 1)) [] (2 * start + 1) (fun ast => [ast])
            (finishLeaf .stringLiteral ⟨start⟩) :=
        .finish rfl rfl nofun
      refine ensures_bind.mpr ((acceptAll_reads (by decide) atLine).mono fun _ stop read => ?_)
      have startLt := read.start_le_stop
      refine (leaf_continues stop (by omega) read.stop_le_size .nil).mono fun _ _ spent => ?_
      exact spent.from_earlier (Nat.le_of_lt startLt) (Nat.le_refl _)
  case h_9 =>
      refine advance_advance_continues (by simp_all) (by simp_all) ?_
      exact .from_half (.finish rfl rfl nofun) (by show _ ≤ 2 * (start + 1) + 1; omega)
  case h_10 =>
      refine advance_continues (by simp_all) ?_
      refine .from_half (initializerList_continues spends rfl) ?_
      omega
  case h_11 =>
      refine Spends.skip advance_skips (fun _ => .skip advance_skips fun _ => ?_) start inside
      exact .expect_continues (by decide) fun name => .finish rfl rfl nofun
  case h_12 =>
      refine advance_continues (by simp_all) (.skip advance_skips fun _ => ?_)
      exact .skip errorNames_skips fun _ => .finish rfl rfl nofun
  case h_13 => exact prototype_spends spends start inside
  case h_14 =>
      refine advance_continues (by simp_all) (.part (expr_spends spends) fun expression => ?_)
      exact .skip (expect_skips (by decide)) fun _ => .finish rfl rfl nofun
  case h_25 =>
      refine advance_continues (by simp_all) (.part spends.typeExpr fun type => ?_)
      exact .finish rfl rfl nofun
  case h_26 => exact ifExpr_spends spends start inside
  case h_27 => exact switchExpr_spends spends start inside
  case h_28 => exact ensures_mismatch.mpr trivial
  all_goals exact containerDecl_spends spends start inside

theorem indexParts_spends
    (spends : InnerSpends kinds inner) :
    Spends kinds 1 id (indexParts inner) := by
  refine .of_continues fun lower => .part (expr_spends spends) fun index => ?_
  refine .part (rangeEnd?_spends spends) fun stop? => ?_
  refine .part (expr_spends spends).after? fun sentinel? => ?_
  exact .skip (expect_skips (by decide)) fun _ => .pure (by simp)

/--
A suffix expression is charged to the tokens it reads.

Along a chain of suffixes the subject is charged to what stands before the suffix.
-/
theorem suffixExpr_spends
    (spends : InnerSpends kinds inner) :
    Spends kinds 1 (fun ast => [ast]) (suffixExpr inner) := by
  intro start inside
  refine ensures_bind.mpr (ensures_here.mpr (ensures_bind.mpr ?_))
  refine (primaryTypeExpr_spends spends start inside).mono fun subject afterSubject spent => ?_
  refine ensures_iterate (fun ast stop => Spent kinds start (2 * start + 1) [ast] stop) ?_ spent
  intro subject position subjectSpent
  have startLe := subjectSpent.position_le
  have lowerLe : 2 * start + 1 ≤ 2 * position + 1 := by omega
  have goesOn :
      ∀ (step : ForInStep Ast) stop,
        Spent kinds position (2 * start + 1) [step.value] stop →
        Spent kinds start (2 * start + 1) [step.value] stop :=
    fun _ _ spent => spent.from_earlier startLe (Nat.le_refl _)
  refine ensures_bind.mpr (ensures_current.mpr (ensures_bind.mpr (ensures_peek.mpr ?_)))
  split
  case h_1 | h_2 =>
      have nameLe : 2 * position ≤ 2 * (position + 1) := by omega
      refine (advance_advance_continues (by simp_all) (by simp_all) (.map ?_ fun _ => rfl)).mono
        goesOn
      exact .finish_between (subjectSpent.charged.widen (Nat.le_refl _) nameLe)
        (by show _ ≤ 2 * (position + 1) + 1; omega) rfl rfl nofun
  case h_3 | h_4 =>
      refine (advance_continues (by simp_all) (.map ?_ fun _ => rfl)).mono goesOn
      exact .finish_between subjectSpent.charged lowerLe rfl rfl nofun
  case h_5 =>
      refine (advance_continues (by simp_all) (.part (indexParts_spends spends) fun parts =>
        .map ?_ fun _ => rfl)).mono goesOn
      exact .finish_between subjectSpent.charged lowerLe (by simp) rfl nofun
  case h_6 =>
      refine ensures_bind.mpr (ensures_here.mpr (ensures_bind.mpr ?_))
      refine (callArguments_spent spends).mono fun arguments stop argumentsSpent => ?_
      have parenLt := argumentsSpent.position_le
      have finish_continues :
          Continues kinds (2 * (position + 1)) arguments (2 * start + 1)
            (fun step : ForInStep Ast => [step.value])
            (finish .call ⟨position⟩ ⟨start⟩
              ((.callee, subject) :: childrenIn .argument arguments) >>= fun ast =>
                pure (.yield ast)) :=
        .map (.finish_between subjectSpent.charged lowerLe (by simp) rfl nofun) fun _ => rfl
      refine (finish_continues stop (by omega) argumentsSpent.stop_le_size
        argumentsSpent.charged).mono fun _ _ spent => ?_
      exact spent.from_earlier (by omega) (Nat.le_refl _)
  case h_7 => exact ensures_pure.mpr subjectSpent

theorem errorUnionExpr_spends
    (spends : InnerSpends kinds inner) :
    Spends kinds 1 (fun ast => [ast]) (errorUnionExpr inner) := by
  refine .skip here_skips fun start => .of_continues fun lower => ?_
  refine .part (suffixExpr_spends spends) fun errors => ?_
  refine .accept?_main (by decide) (fun bang charged lowerLe => ?_) (.pure rfl)
  exact .part spends.typeExpr fun payload => .finish_between charged lowerLe rfl rfl nofun

theorem bracketBounds_spends
    (spends : InnerSpends kinds inner) :
    Spends kinds 1 Prod.fst (bracketBounds inner) := by
  have sentinel_spends : Spends kinds 1 Option.toList (after? .colon (expr inner)) :=
    (expr_spends spends).after?
  refine .skip current_skips fun kind => ?_
  split
  case h_1 => exact .pure rfl
  case h_2 =>
      refine .skip advance_skips fun _ => .skip accept_skips fun _ => ?_
      exact sentinel_spends.map fun _ => rfl
  case h_3 => exact .skip advance_skips fun _ => (expr_spends spends).map fun _ => rfl
  case h_4 =>
      refine .of_continues fun lower => .part (expr_spends spends) fun length => ?_
      exact .part sentinel_spends fun sentinel? => .pure rfl

theorem bracketType_spent
    (spends : InnerSpends kinds inner)
    (notEof : kindAt kinds position ≠ .eof) :
    Ensures kinds (bracketType inner ⟨position⟩) position fun ast stop =>
      Spent kinds position (2 * position + 1) [ast] stop := by
  refine advance_continues notEof (.part (bracketBounds_spends spends) fun (bounds, isArray) => ?_)
  refine .skip (expect_skips (by decide)) fun _ => .skip skipPointerModifiers_skips fun _ => ?_
  refine .part spends.typeExpr fun element => ?_
  cases isArray <;> exact .finish (by simp) rfl nofun

theorem wrappedTypeExpr_spends
    (spends : InnerSpends kinds inner) :
    Spends kinds 1 (fun ast => [ast]) (wrappedTypeExpr inner) := by
  intro start inside
  refine ensures_bind.mpr (ensures_here.mpr (ensures_bind.mpr (ensures_current.mpr ?_)))
  split
  case h_1 =>
      refine advance_continues (by simp_all) (.part spends.typeExpr fun type => ?_)
      exact .finish rfl rfl nofun
  case h_2 | h_3 =>
      refine advance_continues (by simp_all) (.skip skipPointerModifiers_skips fun _ => ?_)
      exact .part spends.typeExpr fun type => .finish rfl rfl nofun
  case h_4 atBracket => exact bracketType_spent spends (by rw [atBracket]; decide)
  case h_5 => exact errorUnionExpr_spends spends start inside

theorem prototype_first
    {isPub isExtern : Bool} :
    Gives kinds (fun ast => ast.head.first = start) (prototype inner start isPub isExtern) := by
  refine .skip fun main => .skip fun name => .skip fun _ => .skip fun parameters => ?_
  exact .skip fun _ => .skip fun _ => .skip fun returned => finish_gives fun _ => rfl

theorem initializerList_first
    {type? : Option Ast} :
    Gives kinds (fun ast => ast.head.first = start) (initializerList inner start type?) :=
  .skip fun _ => .skip fun _ => .skip fun _ => finish_gives fun _ => rfl

theorem ifExpr_first :
    Gives kinds (fun ast => ast.head.first = start) (ifExpr inner start) := by
  refine .skip fun main => .skip fun _ => .skip fun condition => .skip fun _ => .skip fun _ => ?_
  exact .skip fun thenBranch => .skip fun otherwise? => finish_gives fun _ => rfl

theorem switchExpr_first :
    Gives kinds (fun ast => ast.head.first = start) (switchExpr inner start) := by
  refine .skip fun main => .skip fun _ => .skip fun subject => .skip fun _ => .skip fun _ => ?_
  exact .skip fun prongs => .skip fun _ => finish_gives fun _ => rfl

theorem containerDecl_starts : Starts kinds (containerDecl inner) := by
  intro start
  refine ensures_bind.mpr (ensures_here.mpr (Gives.skip (fun _ => .skip fun kind => ?_) start))
  split
  case h_1 => exact .mismatch
  case h_2 =>
      refine .skip fun main => .skip fun tag? => .skip fun _ => .skip fun members => ?_
      exact .skip fun _ => finish_gives fun _ => rfl

theorem primaryTypeExpr_starts : Starts kinds (primaryTypeExpr inner) := by
  intro start
  refine ensures_bind.mpr (ensures_here.mpr (ensures_bind.mpr (ensures_current.mpr ?_)))
  refine ensures_bind.mpr (ensures_peek.mpr ?_)
  split
  case h_2 | h_3 | h_4 | h_5 | h_6 | h_7 | h_8 =>
      exact Gives.skip (fun _ => finish_gives fun _ => rfl) start
  case h_1 | h_9 | h_25 =>
      exact Gives.skip (fun _ => .skip fun _ => finish_gives fun _ => rfl) start
  case h_11 | h_12 | h_14 =>
      exact Gives.skip (fun _ => .skip fun _ => .skip fun _ => finish_gives fun _ => rfl) start
  case h_10 => exact Gives.skip (fun _ => initializerList_first) start
  case h_13 => exact prototype_first start
  case h_26 => exact ifExpr_first start
  case h_27 => exact switchExpr_first start
  case h_28 => exact ensures_mismatch.mpr trivial
  all_goals exact containerDecl_starts start

/-- A suffix makes a node that starts where its subject does. -/
theorem suffixed_first
    {form : NodeForm}
    {main : TokenIndex}
    {children : List (Role × Ast)} :
    Gives kinds (fun step : ForInStep Ast => step.value.head.first = start)
      (finish form main start children >>= fun ast => pure (.yield ast)) :=
  fun _ => ensures_bind.mpr (ensures_finish.mpr (ensures_pure.mpr rfl))

theorem suffixExpr_starts : Starts kinds (suffixExpr inner) := by
  intro start
  refine ensures_bind.mpr (ensures_here.mpr (ensures_bind.mpr ?_))
  refine (primaryTypeExpr_starts start).mono fun subject middle first => ?_
  refine ensures_iterate (fun (ast : Ast) _ => ast.head.first = ⟨start⟩) ?_ first
  intro subject position first
  refine Gives.skip (fun kind => .skip fun next => ?_) position
  split
  case h_1 | h_2 | h_5 | h_6 => exact .skip fun _ => .skip fun _ => suffixed_first
  case h_3 | h_4 => exact .skip fun _ => suffixed_first
  case h_7 => exact .pure first

theorem errorUnionExpr_starts : Starts kinds (errorUnionExpr inner) := by
  intro start
  refine ensures_bind.mpr (ensures_here.mpr (ensures_bind.mpr ?_))
  refine (suffixExpr_starts start).mono fun errors middle first => ?_
  refine Gives.skip (fun bang? => ?_) middle
  cases bang? with
  | some bang => exact .skip fun payload => finish_gives fun _ => rfl
  | none => exact .pure first

theorem wrappedTypeExpr_starts : Starts kinds (wrappedTypeExpr inner) := by
  intro start
  refine ensures_bind.mpr (ensures_here.mpr (ensures_bind.mpr (ensures_current.mpr ?_)))
  split
  case h_1 => exact Gives.skip (fun _ => .skip fun _ => finish_gives fun _ => rfl) start
  case h_2 | h_3 =>
      exact Gives.skip (fun _ => .skip fun _ => .skip fun _ => finish_gives fun _ => rfl) start
  case h_4 =>
      refine Gives.skip (fun _ => .skip fun (bounds, isArray) => .skip fun _ => ?_) start
      refine .skip fun _ => .skip fun element => ?_
      cases isArray <;> exact finish_gives fun _ => rfl
  case h_5 => exact errorUnionExpr_starts start

/-- At every nesting level both productions are charged to the tokens they read. -/
theorem levels_spends (count : Nat) : InnerSpends kinds (levels count) := by
  induction count with
  | zero => exact ⟨.mismatch, .mismatch, fun _ => ensures_mismatch.mpr trivial⟩
  | succ count inductionHypothesis =>
      exact ⟨unaryExpr_spends inductionHypothesis, wrappedTypeExpr_spends inductionHypothesis,
        wrappedTypeExpr_starts⟩

/-- The nodes of a whole file are charged to the tokens before its end. -/
theorem file_spends :
    Ensures kinds file 0 fun members stop => Spent kinds 0 0 members stop := by
  refine ensures_bind.mpr ?_
  refine (containerMembers_spends (levels_spends maxLevels) 0 (Nat.zero_le _)).mono
    fun members stop spent => ?_
  refine ensures_bind.mpr (ensures_isAt.mpr (ensures_ite.mpr ⟨fun _ => ?_, fun _ => ?_⟩))
  · exact ensures_pure.mpr spent
  · exact ensures_mismatch.mpr trivial

end ZigLint.Parser
