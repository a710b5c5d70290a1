import ZigLint.Proofs.Parser.DeclarationPlacement
import ZigLint.Proofs.Parser.ExpressionCharges
import ZigLint.Proofs.Parser.ExpressionPhrases

namespace ZigLint.Parser

/-!
# Charges of declarations, blocks and containers

Three productions build a node whose main token is that of its first child, too: a
function has the keyword of its prototype, and a parameter or field without a name
starts with its type. Their nodes take the first half of this token, which their
first child leaves free.
-/

variable {kinds : Array TokenKind} {inner : Inner} {start : TokenIndex}

theorem finish_gives
    {good : Ast → Prop}
    {form : NodeForm}
    {main first : TokenIndex}
    {children : List (Role × Ast)}
    (holds : ∀ last, good (.node { form, main, first, last } children)) :
    Gives kinds good (finish form main first children) :=
  fun _ => ensures_finish.mpr (holds _)

theorem varDecl_spends
    (spends : InnerSpends kinds inner)
    {isPub isExtern : Bool} :
    Spends kinds 1 (fun ast => [ast]) (varDecl inner start isPub isExtern) := by
  refine .skip isAt_skips fun isMutable => ?_
  refine .advance_expect_continues (by decide) fun main name => ?_
  refine .part spends.typeExpr.after? fun type? => .skip skipDeclModifiers_skips fun _ => ?_
  refine .part (expr_spends spends).after? fun value? => ?_
  refine .skip (expect_skips (by decide)) fun _ => ?_
  exact .finish (by simp) rfl nofun

theorem statement_spends
    (spends : InnerSpends kinds inner) :
    Spends kinds 1 (fun ast => [ast]) (statement inner) := by
  intro position inside
  refine ensures_bind.mpr (ensures_here.mpr (ensures_bind.mpr (ensures_current.mpr ?_)))
  refine ensures_bind.mpr (ensures_peek.mpr ?_)
  split
  case h_7 =>
      have continues :
          Spends kinds 1 (fun ast => [ast])
            (assignExpr inner >>= fun expression => endStatement >>= fun _ => pure expression) := by
        refine .of_continues fun lower => .part (assignExpr_spends spends) fun expression => ?_
        exact .skip endStatement_skips fun _ => .pure rfl
      exact continues position inside
  case h_1 | h_2 => exact varDecl_spends spends position inside
  case h_3 | h_4 =>
      exact Spends.skip advance_skips (fun _ => varDecl_spends spends) position inside
  case h_5 | h_6 =>
      refine advance_continues (by simp_all) (.skip skipCapture_skips fun _ => ?_)
      refine .part (assignExpr_spends spends) fun body => .skip endStatement_skips fun _ => ?_
      exact .finish rfl rfl nofun

theorem block_spends
    (spends : InnerSpends kinds inner) :
    Spends kinds 1 (fun ast => [ast]) (block inner start) := by
  refine .expect_continues (by decide) fun brace => .part (.collect ?_) fun statements => ?_
  · refine .skip isAt_skips fun atEnd => ?_
    cases atEnd with
    | true => exact .pure rfl
    | false =>
        refine .skip isAt_skips fun atEof => ?_
        cases atEof with
        | true => exact .mismatch
        | false => exact (statement_spends spends).map fun _ => rfl
  · exact .skip (expect_skips (by decide)) fun _ => .finish (by simp) rfl nofun

theorem parameterType_spends
    (spends : InnerSpends kinds inner) :
    Spends kinds 1 (fun ast => [ast]) (parameterType inner) :=
  .accept?_continues (by decide) (Nat.le_refl 1) (fun _ => .finish rfl rfl nofun) spends.typeExpr

/-- The name of a parameter is its main token. Without a name nothing has been read. -/
theorem parameterName?_continues
    {lower outcome : Nat}
    {asts : α → List Ast}
    {next : Option TokenIndex → Parser α}
    (named :
      ∀ name : TokenIndex,
        Continues kinds (2 * (name.val + 1)) [] (2 * name.val + 1) asts (next (some name)))
    (nameless : Continues kinds lower [] outcome asts (next none))
    (outcomeLe : outcome ≤ lower) :
    Continues kinds lower [] outcome asts (parameterName? >>= next) := by
  intro position lowerLe inside charged
  refine ensures_bind.mpr ((parameterName?_reads inside).mono ?_)
  intro name? middle ⟨read, isName⟩
  have positionLe := read.start_le_stop
  cases name? with
  | none =>
      refine (nameless middle (by omega) read.stop_le_size .nil).mono fun _ _ spent => ?_
      exact spent.from_earlier positionLe (Nat.le_refl _)
  | some name =>
      obtain ⟨nameEq, nameLt⟩ := isName name rfl
      refine (named name middle (by omega) read.stop_le_size .nil).mono fun _ _ spent => ?_
      exact spent.from_earlier positionLe (by omega)

/-- A parameter without a name may take the first half of the token its type starts with. -/
theorem parameter?_spends
    (spends : InnerSpends kinds inner) :
    Spends kinds 0 Option.toList (parameter? inner) := by
  refine .here_continues fun start => .skip accept_skips fun isVariadic => ?_
  cases isVariadic with
  | true => exact .from_half (.pure rfl) (Nat.le_succ _)
  | false =>
      refine .skip skipEither_skips fun _ => ?_
      refine parameterName?_continues (fun name => ?named) ?nameless (Nat.le_succ _)
      case named =>
        refine .part (parameterType_spends spends) fun type => ?_
        exact .map (.finish rfl rfl nofun) fun _ => rfl
      case nameless =>
        refine .part (parameterType_spends spends) fun type => ?_
        exact .map (.finish_shared rfl rfl) fun _ => rfl

theorem returnType_spends
    (spends : InnerSpends kinds inner) :
    Spends kinds 1 (fun ast => [ast]) (returnType inner) :=
  .accept?_continues (by decide) (Nat.le_refl 1)
    (fun _ => .part spends.typeExpr fun _ => .finish rfl rfl nofun) spends.typeExpr

theorem prototype_spends
    (spends : InnerSpends kinds inner)
    {isPub isExtern : Bool} :
    Spends kinds 1 (fun ast => [ast]) (prototype inner start isPub isExtern) := by
  refine .expect_continues (by decide) fun main => .skip accept?_skips fun name => ?_
  refine .skip (expect_skips (by decide)) fun _ => .wholePart (.collect ?_) fun parameters => ?_
  · refine .skip isAt_skips fun atEnd => ?_
    cases atEnd with
    | true => exact .pure rfl
    | false =>
        refine .of_continues_whole fun start => ?_
        refine .wholePart (parameter?_spends spends) fun parameter? => ?_
        refine .skip isAt_skips fun atEnd => ?_
        cases atEnd with
        | true => exact .pure rfl
        | false => exact .skip (expect_skips (by decide)) fun _ => .pure rfl
  · refine .skip (expect_skips (by decide)) fun _ => .skip skipDeclModifiers_skips fun _ => ?_
    exact .part (returnType_spends spends) fun returned => .finish (by simp) rfl nofun

/-- The main token of a prototype is its keyword, with which it is read. -/
theorem prototype_main
    {isPub isExtern : Bool}
    {position : Nat} :
    Ensures kinds (prototype inner start isPub isExtern) position fun ast _ =>
      ast.head.main = ⟨position⟩ := by
  refine ensures_bind.mpr ((ensures_expect (by decide)).mpr fun _ _ => ?_)
  refine Gives.skip (fun name => .skip fun _ => .skip fun parameters => .skip fun _ => ?_) _
  exact .skip fun _ => .skip fun returned => finish_gives fun _ => rfl

theorem fnBody?_spends
    (spends : InnerSpends kinds inner) :
    Spends kinds 1 Option.toList (fnBody? inner) := by
  refine .skip isAt_skips fun hasBody => ?_
  cases hasBody with
  | true => exact .skip here_skips fun start => (block_spends spends).map fun _ => rfl
  | false => exact .skip (expect_skips (by decide)) fun _ => .pure rfl

/-- A function takes the first half of its keyword, which its prototype leaves free. -/
theorem fnDecl_spends
    (spends : InnerSpends kinds inner)
    {isPub isExtern : Bool} :
    Spends kinds 0 (fun ast => [ast]) (fnDecl inner start isPub isExtern) := by
  refine (prototype_spends spends).share (fun _ => prototype_main) fun prototype => ?_
  exact .part (fnBody?_spends spends) fun body? => .finish_shared (by simp) rfl

theorem decl_spends
    (spends : InnerSpends kinds inner)
    {isPub : Bool} :
    Spends kinds 0 (fun ast => [ast]) (decl inner start isPub) := by
  refine .skip declModifiers_skips fun isExtern => .skip current_skips fun kind => ?_
  split
  case h_1 => exact fnDecl_spends spends
  case h_2 | h_3 => exact (varDecl_spends spends).whole
  case h_4 => exact .mismatch

/-- A field without a name takes the first half of the token its type starts with. -/
theorem containerField_spends
    (spends : InnerSpends kinds inner) :
    Spends kinds 0 (fun ast => [ast]) (containerField inner) := by
  refine .skip here_skips fun start => .skip accept_skips fun _ => ?_
  intro position inside
  refine ensures_bind.mpr (ensures_isAt.mpr (ensures_bind.mpr (ensures_peek.mpr ?_)))
  split
  case isTrue isNamed =>
      have atName : kindAt kinds position = .identifier := by simp_all
      have named_spent :
          ∀ ast stop,
            Spent kinds position (2 * position + 1) [ast] stop →
            Spent kinds position (2 * position) [ast] stop :=
        fun _ _ spent => spent.from_earlier (Nat.le_refl position) (Nat.le_succ _)
      refine (advance_continues (by rw [atName]; decide) ?_).mono named_spent
      refine .part spends.typeExpr.after? fun type? => .skip skipDeclModifiers_skips fun _ => ?_
      exact .part (expr_spends spends).after? fun value? => .finish (by simp) rfl nofun
  case isFalse =>
      refine spends.typeExpr.share spends.typeExpr_starts (fun type => ?_) position inside
      refine .skip skipDeclModifiers_skips fun _ => ?_
      exact .part (expr_spends spends).after? fun value? => .finish_shared (by simp) rfl

theorem testDecl_spent
    (spends : InnerSpends kinds inner)
    {position : Nat}
    (notEof : kindAt kinds position ≠ .eof) :
    Ensures kinds (testDecl inner) position fun ast stop =>
      Spent kinds position (2 * position + 1) [ast] stop := by
  refine advance_continues notEof (.skip skipTestName_skips fun _ => .skip here_skips fun _ => ?_)
  exact .part (block_spends spends) fun body => .finish rfl rfl nofun

theorem containerMember_spends
    (spends : InnerSpends kinds inner) :
    Spends kinds 0 (fun ast => [ast]) (containerMember inner) := by
  intro position inside
  refine ensures_bind.mpr (ensures_current.mpr (ensures_bind.mpr (ensures_peek.mpr ?_)))
  split
  case h_1 atTest =>
      refine (testDecl_spent spends (by rw [atTest]; decide)).mono fun _ _ spent => ?_
      exact spent.from_earlier (Nat.le_refl position) (Nat.le_succ _)
  case h_2 =>
      refine Ensures.mono (advance_continues (by simp_all) (.part (block_spends spends) fun body =>
        .finish rfl rfl nofun)) fun _ _ spent => ?_
      exact spent.from_earlier (Nat.le_refl position) (Nat.le_succ _)
  case h_3 =>
      refine Spends.skip here_skips (fun start => ?_) position inside
      refine .skip accept_skips fun isPub => ?_
      refine .accept?_continues (by decide) (Nat.zero_le 1) (fun main => ?namespaceUse) ?member
      case namespaceUse =>
        refine .part (expr_spends spends) fun expression => ?_
        exact .skip (expect_skips (by decide)) fun _ => .finish rfl rfl nofun
      case member =>
        refine .skip current_skips fun kind => ?_
        split
        case isTrue => exact decl_spends spends
        case isFalse =>
          refine .of_continues_whole fun start => ?_
          refine .wholePart (containerField_spends spends) fun field => ?_
          refine .skip isAt_skips fun atEnd => ?_
          cases atEnd with
          | true => exact .pure rfl
          | false => exact .skip (expect_skips (by decide)) fun _ => .pure rfl

theorem containerMembers_spends
    (spends : InnerSpends kinds inner) :
    Spends kinds 0 id (containerMembers inner) := by
  refine .collect (.skip current_skips fun kind => ?_)
  split
  case h_1 | h_2 => exact .pure rfl
  case h_3 => exact (containerMember_spends spends).map fun _ => rfl

theorem tagType?_spends
    (spends : InnerSpends kinds inner) :
    Spends kinds 1 Option.toList (tagType? inner) := by
  refine .skip accept_skips fun isEnum => ?_
  cases isEnum with
  | false => exact (expr_spends spends).map fun _ => rfl
  | true =>
      refine .skip isAt_skips fun hasTag => ?_
      cases hasTag with
      | true => exact .skip skipParens_skips fun _ => .pure rfl
      | false => exact .pure rfl

theorem containerTag?_spends
    (spends : InnerSpends kinds inner) :
    Spends kinds 1 Option.toList (containerTag? inner) := by
  refine .skip accept_skips fun hasTag => ?_
  cases hasTag with
  | false => exact .pure rfl
  | true =>
      refine .of_continues fun lower => .part (tagType?_spends spends) fun tag? => ?_
      exact .skip (expect_skips (by decide)) fun _ => .pure rfl

theorem containerDecl_spends
    (spends : InnerSpends kinds inner) :
    Spends kinds 1 (fun ast => [ast]) (containerDecl inner) := by
  refine .skip here_skips fun start => .skip skipEither_skips fun _ => ?_
  intro position inside
  refine ensures_bind.mpr (ensures_current.mpr ?_)
  split
  case h_1 => exact ensures_mismatch.mpr trivial
  case h_2 kind isContainer =>
      have notEof : kindAt kinds position ≠ .eof := by
        intro isEof
        rw [isEof] at isContainer
        cases isContainer
      refine advance_continues notEof (.part (containerTag?_spends spends) fun tag? => ?_)
      refine .skip (expect_skips (by decide)) fun _ => ?_
      refine .wholePart (containerMembers_spends spends) fun members => ?_
      exact .skip (expect_skips (by decide)) fun _ => .finish (by simp) rfl nofun

end ZigLint.Parser
