import ZigLint.Proofs.Parser.DeclarationNesting

namespace ZigLint.Parser

/-!
# Nesting of primary and type expressions

Control flow, literals, suffixes and types keep the brackets if the next nesting
level does, so by induction every level does and a whole file closes what it
opens. A labelled `inline` takes any token for the keyword of its loop; nothing
is said about a source in which that token is another one.
-/

open Brackets

variable
  {kinds : Array TokenKind}
  {inner : Inner}
  {start : TokenIndex}
  {ahead : List TokenKind}

/-- Where a token is taken as code, a labelled `inline` is followed by a loop. -/
def InlineLoops (kinds : Array TokenKind) : Prop :=
  ∀ position opened,
    Stands kinds position opened →
    Ahead kinds position [.identifier, .colon, .keyword .kwInline] →
    kindAt kinds (position + 3) = .keyword .kwWhile ∨
      kindAt kinds (position + 3) = .keyword .kwFor

theorem elseBranch?_keeps (keeps : InnerKeeps kinds inner) :
    Keeps kinds (elseBranch? inner) := by
  intro position opened _ stands
  refine (ensures_after? (by decide)).mpr ⟨fun atElse lt => ?_, fun _ => stands⟩
  have reaches : Reaches kinds (position + 1) opened (.code .capture) :=
    stands.leaves lt (by rw [atElse]; rfl) (by decide)
  exact skipCapture_keeps (fun _ => assignExpr_keeps keeps) reaches

theorem ifExpr_keeps (keeps : InnerKeeps kinds inner) :
    KeepsFrom kinds (.keyword .kwIf :: ahead) (ifExpr inner start) := by
  refine .advance_head rfl (expr_keeps keeps) fun main condition _ => ?_
  refine .bind (assignExpr_keeps keeps) fun thenBranch => ?_
  exact .bind (elseBranch?_keeps keeps) fun _ => finish_keeps

theorem rangeEnd?_keeps
    {isOpen : TokenKind → Bool}
    (keeps : InnerKeeps kinds inner) :
    Keeps kinds (rangeEnd? inner isOpen) := by
  refine .bind (accept_keeps rfl) fun isRange => ?_
  cases isRange with
  | false => exact .pure
  | true =>
      refine .look current_looks fun kind => ?_
      split
      · exact .pure
      · exact .bind (expr_keeps keeps) fun _ => .pure

theorem forInput_keeps (keeps : InnerKeeps kinds inner) : Keeps kinds (forInput inner) :=
  .bind (expr_keeps keeps) fun _ => .bind (rangeEnd?_keeps keeps) fun _ => .pure

theorem loopInputs_keeps
    {isFor : Bool}
    (keeps : InnerKeeps kinds inner) :
    Keeps kinds (loopInputs inner isFor) := by
  cases isFor with
  | true => exact separated_keeps (forInput_keeps keeps)
  | false => exact map_keeps (expr_keeps keeps)

theorem loopContinuation?_keeps
    {isFor : Bool}
    (keeps : InnerKeeps kinds inner) :
    Keeps kinds (loopContinuation? inner isFor) := by
  cases isFor with
  | true => exact .pure
  | false =>
      refine after?_keeps rfl (expect_opens rfl fun _ => .after (assignExpr_keeps keeps) ?_)
      exact fun _ => .expect rfl fun _ => .pure

theorem loopExpr_keeps
    {kind : TokenKind}
    (announces : Cue.after kind = .head)
    (keeps : InnerKeeps kinds inner) :
    KeepsFrom kinds (kind :: ahead) (loopExpr inner start) := by
  refine .look isAt_looks fun isFor => ?_
  refine .advance_head announces (loopInputs_keeps keeps) fun main inputs _ => ?_
  refine .bind (loopContinuation?_keeps keeps) fun continuation? => ?_
  refine .bind (assignExpr_keeps keeps) fun body => ?_
  exact .bind (elseBranch?_keeps keeps) fun _ => finish_keeps

theorem prongItems_keeps (keeps : InnerKeeps kinds inner) : Keeps kinds (prongItems inner) := by
  refine collect_keeps (.bind (expr_keeps keeps) fun item => ?_)
  refine .bind (after?_keeps rfl (expr_keeps keeps)) fun upper? => ?_
  refine .bind (accept_keeps rfl) fun more => ?_
  cases more with
  | false => exact .pure
  | true => exact .look isAt_looks fun _ => .pure

/-- After `else` a bar would start a capture, but an arrow does not. -/
theorem prongSelector_keeps
    {position : Nat}
    {opened : List Opened}
    (keeps : InnerKeeps kinds inner)
    (stands : Stands kinds position opened) :
    Ensures kinds (prongSelector inner) position fun _ stop =>
      kindAt kinds stop = .fatArrow → Stands kinds stop opened := by
  unfold prongSelector
  simp only [ensures_bind]
  refine (ensures_accept (by decide)).mpr ⟨fun atElse lt => ?_, fun _ => ?_⟩
  · have reaches : Reaches kinds (position + 1) opened (.code .capture) :=
      stands.leaves lt (by rw [atElse]; rfl) (by decide)
    exact ensures_pure.mpr fun atArrow => reaches.stands (by rw [atArrow]; rfl)
  · simp only [Bool.false_eq_true, if_false]
    exact (prongItems_keeps keeps trivial stands).mono fun _ _ stands _ => stands

theorem switchProng_keeps (keeps : InnerKeeps kinds inner) :
    Keeps kinds (switchProng inner) := by
  refine .look here_looks fun start => .bind (accept_keeps rfl) fun _ => ?_
  intro position opened _ stands
  refine ensures_bind.mpr ((prongSelector_keeps keeps stands).mono fun items stop atSelector => ?_)
  have bodyKeeps :
      Keeps kinds (expect .fatArrow >>= fun arrow => skipCapture >>= fun _ =>
        assignExpr inner >>= fun body =>
          finish .switchProng arrow start (childrenIn .part items ++ [(.part, body)])) :=
    expect_capture rfl fun _ _ => .bind (assignExpr_keeps keeps) fun _ => finish_keeps
  by_cases atArrow : kindAt kinds stop = .fatArrow
  · exact bodyKeeps trivial (atSelector atArrow)
  · refine ensures_bind.mpr ((ensures_expect (by decide)).mpr fun isArrow => ?_)
    exact (atArrow isArrow).elim

theorem endProng_keeps : Keeps kinds endProng := by
  refine .bind (accept_keeps rfl) fun found => ?_
  cases found with
  | true => exact .pure
  | false =>
      refine .look isAt_looks fun atBrace => ?_
      cases atBrace with
      | true => exact .pure
      | false =>
          refine .look previous_looks fun before => ?_
          split
          · exact .mismatch
          · exact .pure

/-- The parentheses of a `switch` enclose its subject, and its braces the prongs. -/
theorem switchExpr_keeps (keeps : InnerKeeps kinds inner) :
    KeepsFrom kinds (.keyword .kwSwitch :: ahead) (switchExpr inner start) := by
  refine .advance rfl fun main => Keeps.from (expect_opens rfl fun _ => ?_)
  refine .after (expr_keeps keeps) fun subject => .expect rfl fun _ => ?_
  refine expect_opens rfl fun _ => .after (collect_keeps ?_) fun prongs => ?_
  · refine .look isAt_looks fun atEnd => ?_
    cases atEnd with
    | true => exact .pure
    | false =>
        refine .bind (switchProng_keeps keeps) fun prong => ?_
        exact .bind endProng_keeps fun _ => .pure
  · exact .expect rfl fun _ => finish_keeps

theorem curlySuffixExpr_keeps (keeps : InnerKeeps kinds inner) :
    Keeps kinds (curlySuffixExpr inner) := by
  refine .look here_looks fun start => .bind keeps.typeExpr fun type => ?_
  refine .look isAt_looks fun hasBraces => ?_
  cases hasBraces with
  | true => exact initializerList_keeps keeps
  | false => exact .pure

theorem operand?_keeps (keeps : InnerKeeps kinds inner) : Keeps kinds (operand? inner) := by
  refine .look current_looks fun kind => ?_
  split
  · exact .pure
  · exact .bind (expr_keeps keeps) fun _ => .pure

theorem skipJumpLabel_keeps : Keeps kinds skipJumpLabel := by
  refine keeps_current_peek fun first second => ?_
  split
  · exact .advance rfl fun _ => .advance rfl fun _ => .pure
  · exact .pure

/-- A labelled loop, after its label, with or without `inline`. -/
theorem labelledLoop_keeps
    (loops : InlineLoops kinds)
    (keeps : InnerKeeps kinds inner) :
    KeepsFrom kinds [.identifier, .colon, .keyword .kwInline]
      (advance >>= fun _ => advance >>= fun _ => accept (.keyword .kwInline) >>= fun _ =>
        loopExpr inner start) := by
  have chain :
      ∀ kind, Cue.after kind = .head →
        KeepsFrom kinds [.identifier, .colon, .keyword .kwInline, kind]
          (advance >>= fun _ => advance >>= fun _ => accept (.keyword .kwInline) >>= fun _ =>
            loopExpr inner start) :=
    fun kind announces => .advance rfl fun _ => .advance rfl fun _ => .accept rfl
      (loopExpr_keeps announces keeps)
  intro position opened isAhead stands
  obtain ⟨atName, atColon, atInline, -⟩ := isAhead
  obtain isWhile | isFor := loops position opened stands ⟨atName, atColon, atInline, trivial⟩
  · exact chain (.keyword .kwWhile) rfl ⟨atName, atColon, atInline, isWhile, trivial⟩ stands
  · exact chain (.keyword .kwFor) rfl ⟨atName, atColon, atInline, isFor, trivial⟩ stands

theorem primaryExpr_keeps
    (loops : InlineLoops kinds)
    (keeps : InnerKeeps kinds inner) :
    Keeps kinds (primaryExpr inner) := by
  refine .look here_looks fun start => keeps_current_peek_peek fun first second third => ?_
  split
  case h_1 =>
      refine .advance rfl fun _ => Keeps.from (.bind (operand?_keeps keeps) fun _ => ?_)
      exact finish_keeps
  case h_2 =>
      refine .advance rfl fun _ => Keeps.from (.bind skipJumpLabel_keeps fun _ => ?_)
      exact .bind (operand?_keeps keeps) fun _ => finish_keeps
  case h_3 =>
      exact .advance rfl fun _ => Keeps.from (.bind skipJumpLabel_keeps fun _ => finish_keeps)
  case h_4 => exact ifExpr_keeps keeps
  case h_5 | h_6 => exact loopExpr_keeps rfl keeps
  case h_7 | h_8 => exact .advance rfl fun _ => loopExpr_keeps rfl keeps
  case h_9 => exact switchExpr_keeps keeps
  case h_10 => exact Keeps.from (block_keeps keeps)
  case h_11 => exact .advance rfl fun _ => .advance rfl fun _ => Keeps.from (block_keeps keeps)
  case h_12 | h_13 =>
      refine .advance rfl fun _ => .advance rfl fun _ => ?_
      exact .accept_other (by decide) (by decide) (loopExpr_keeps rfl keeps)
  case h_14 => exact labelledLoop_keeps loops keeps
  case h_15 => exact Keeps.from (curlySuffixExpr_keeps keeps)

theorem unaryExpr_keeps
    (loops : InlineLoops kinds)
    (keeps : InnerKeeps kinds inner) :
    Keeps kinds (unaryExpr inner) := by
  refine .look here_looks fun start => keeps_current fun kind => ?_
  split
  case h_8 => exact .advance rfl fun _ => keeps.prefixExpr
  case h_9 => exact Keeps.from (primaryExpr_keeps loops keeps)
  all_goals exact .advance rfl fun _ => .bind keeps.prefixExpr fun _ => finish_keeps

/-- The names of an error set stand in front of the brace that closes it. -/
theorem errorNames_closes : Closes kinds .brace errorNames := by
  refine .after (repeatWhile_keeps (.look isAt_looks fun atEnd => ?_)) fun _ => ?_
  · cases atEnd with
    | true => exact .pure
    | false => exact .bind (expect_keeps rfl) fun _ => accept_keeps rfl
  · exact .expect rfl fun _ => .pure

theorem primaryTypeExpr_keeps (keeps : InnerKeeps kinds inner) :
    Keeps kinds (primaryTypeExpr inner) := by
  refine .look here_looks fun start => keeps_current_peek fun first second => ?_
  split
  case h_1 =>
      refine .advance rfl fun _ => Keeps.from (.bind (callArguments_keeps keeps) fun _ => ?_)
      exact finish_keeps
  case h_7 =>
      exact Keeps.from (.bind (repeatWhile_keeps (accept_keeps rfl)) fun _ => finish_keeps)
  case h_9 => exact .advance rfl fun _ => .advance rfl fun _ => finish_keeps
  case h_10 => exact .advance rfl fun _ => Keeps.from (initializerList_keeps keeps)
  case h_11 =>
      refine .advance rfl fun _ => .advance rfl fun _ => ?_
      exact .bind (expect_keeps rfl) fun _ => finish_keeps
  case h_12 =>
      refine .advance rfl fun _ => .advance_opens rfl fun _ => ?_
      exact .bind errorNames_closes fun _ => finish_keeps
  case h_13 => exact Keeps.from (prototype_keeps keeps)
  case h_14 =>
      refine .advance_opens rfl fun _ => .after (expr_keeps keeps) fun _ => ?_
      exact .expect rfl fun _ => finish_keeps
  case h_25 => exact .advance rfl fun _ => Keeps.from (.bind keeps.typeExpr fun _ => finish_keeps)
  case h_26 => exact ifExpr_keeps keeps
  case h_27 => exact switchExpr_keeps keeps
  case h_28 => exact .mismatch
  case h_2 | h_3 | h_4 | h_5 | h_6 | h_8 =>
      exact .advance rfl fun _ => Keeps.from finish_keeps
  all_goals exact Keeps.from (containerDecl_keeps keeps)

/-- What stands in the brackets of an index is followed by the bracket that closes them. -/
theorem indexParts_closes (keeps : InnerKeeps kinds inner) :
    Closes kinds .square (indexParts inner) := by
  refine .after (expr_keeps keeps) fun index => .after (rangeEnd?_keeps keeps) fun stop? => ?_
  refine .after (after?_keeps rfl (expr_keeps keeps)) fun sentinel? => ?_
  exact .expect rfl fun _ => .pure

theorem suffixExpr_keeps (keeps : InnerKeeps kinds inner) : Keeps kinds (suffixExpr inner) := by
  refine .look here_looks fun start => .bind (primaryTypeExpr_keeps keeps) fun subject => ?_
  refine iterate_keeps fun subject => keeps_current_peek fun first second => ?_
  split
  case h_1 | h_2 =>
      refine .advance rfl fun _ => .advance rfl fun _ => ?_
      exact .bind finish_keeps fun _ => .pure
  case h_3 | h_4 => exact .advance rfl fun _ => Keeps.from (.bind finish_keeps fun _ => .pure)
  case h_5 =>
      refine .advance_opens rfl fun _ => .bind (indexParts_closes keeps) fun _ => ?_
      exact .bind finish_keeps fun _ => .pure
  case h_6 =>
      refine Keeps.from (.look here_looks fun _ => .bind (callArguments_keeps keeps) fun _ => ?_)
      exact .bind finish_keeps fun _ => .pure
  case h_7 => exact .pure

theorem errorUnionExpr_keeps (keeps : InnerKeeps kinds inner) :
    Keeps kinds (errorUnionExpr inner) := by
  refine .look here_looks fun start => .bind (suffixExpr_keeps keeps) fun errors => ?_
  refine .bind (accept?_keeps rfl) fun found => ?_
  cases found with
  | some bang => exact .bind keeps.typeExpr fun _ => finish_keeps
  | none => exact .pure

theorem bracketBounds_keeps (keeps : InnerKeeps kinds inner) :
    Keeps kinds (bracketBounds inner) := by
  have sentinelKeeps : Keeps kinds (after? .colon (expr inner)) :=
    after?_keeps rfl (expr_keeps keeps)
  refine keeps_current fun kind => ?_
  split
  case h_1 => exact .pure
  case h_2 =>
      refine .advance rfl fun _ => .bind (accept_keeps rfl) fun _ => ?_
      exact .bind sentinelKeeps fun _ => .pure
  case h_3 => exact .advance rfl fun _ => .bind (expr_keeps keeps) fun _ => .pure
  case h_4 =>
      refine Keeps.from (.bind (expr_keeps keeps) fun _ => ?_)
      exact .bind sentinelKeeps fun _ => .pure

/-- The brackets of a type enclose its bounds. -/
theorem bracketType_keeps (keeps : InnerKeeps kinds inner) :
    KeepsFrom kinds (.lBracket :: ahead) (bracketType inner start) := by
  refine .advance_opens rfl fun _ => .after (bracketBounds_keeps keeps) fun (bounds, isArray) => ?_
  refine .expect rfl fun _ => .bind skipPointerModifiers_keeps fun _ => ?_
  refine .bind keeps.typeExpr fun element => ?_
  cases isArray <;> exact finish_keeps

theorem wrappedTypeExpr_keeps (keeps : InnerKeeps kinds inner) :
    Keeps kinds (wrappedTypeExpr inner) := by
  refine .look here_looks fun start => keeps_current fun kind => ?_
  split
  case h_1 => exact .advance rfl fun _ => .bind keeps.typeExpr fun _ => finish_keeps
  case h_2 | h_3 =>
      refine .advance rfl fun _ => .bind skipPointerModifiers_keeps fun _ => ?_
      exact .bind keeps.typeExpr fun _ => finish_keeps
  case h_4 => exact bracketType_keeps keeps
  case h_5 => exact Keeps.from (errorUnionExpr_keeps keeps)

/-- At every nesting level both productions keep the brackets. -/
theorem levels_keeps (loops : InlineLoops kinds) (count : Nat) :
    InnerKeeps kinds (levels count) := by
  induction count with
  | zero => exact ⟨.mismatch, .mismatch⟩
  | succ count inductionHypothesis =>
      exact ⟨unaryExpr_keeps loops inductionHypothesis, wrappedTypeExpr_keeps inductionHypothesis⟩

/-- At the end of a file no bracket is open. -/
theorem file_keeps (loops : InlineLoops kinds) :
    Ensures kinds file 0 fun _ stop => Stands kinds stop [] ∧ kindAt kinds stop = .eof := by
  have starts : Stands kinds 0 [] := ⟨.nothing, ⟨.start, rfl, rfl, rfl⟩, rfl⟩
  unfold file
  simp only [ensures_bind, ensures_isAt, ensures_ite, ensures_pure, ensures_mismatch]
  refine (containerMembers_keeps (levels_keeps loops maxLevels) trivial starts).mono ?_
  intro members stop stands
  exact ⟨fun atEnd => ⟨stands, beq_iff_eq.mp atEnd⟩, fun _ => trivial⟩

end ZigLint.Parser
