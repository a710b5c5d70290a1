import ZigLint.Proofs.Parser.ExpressionPhrases

namespace ZigLint.Parser

/-!
# Phrases of declarations, blocks and containers

Bindings, functions, fields, tests and containers have their parts in the slots of
their forms, whatever phrases the next nesting level gives.
-/

variable {kinds : Array TokenKind} {inner : Inner} {start : TokenIndex} {isPub isExtern : Bool}

/-- A binding is a statement and a member. -/
theorem varDecl_gives
    (gives : InnerGives kinds inner)
    {category : Category}
    (admitted : ∀ power head, category.admits power (.varDecl head) = true) :
    Gives kinds (Phrase kinds category) (varDecl inner start isPub isExtern) := by
  refine .skip fun isMutable => .skip fun main => .skip fun name => ?_
  refine gives.typeExpr.after?.bind fun type? typePhrase => .skip fun _ => ?_
  refine (expr_gives gives).after?.bind fun value? valuePhrase => .skip fun _ => ?_
  exact .finish (admitted _ _) (.optional typePhrase (.lastOptional valuePhrase))

theorem statement_gives
    (gives : InnerGives kinds inner) :
    Gives kinds (Phrase kinds .statement) (statement inner) := by
  refine .skip fun start => .skip fun kind => .skip fun next => ?_
  split
  case h_1 | h_2 => exact varDecl_gives gives fun _ _ => rfl
  case h_3 | h_4 => exact .skip fun _ => varDecl_gives gives fun _ _ => rfl
  case h_5 | h_6 =>
    refine .skip fun main => .skip fun _ => ?_
    refine (assignExpr_gives gives).bind fun body bodyPhrase => .skip fun _ => ?_
    exact .finish rfl (.one bodyPhrase .nil)
  case h_7 =>
    refine (assignExpr_gives gives).bind fun expression phrase => .skip fun _ => ?_
    exact .pure phrase.assignment_statement

theorem block_gives
    (gives : InnerGives kinds inner) :
    Gives kinds (Phrase kinds .block) (block inner start) := by
  refine .skip fun brace => .bind (.collect (.skip fun atEnd => ?_)) fun statements phrases =>
    .skip fun _ => .finish rfl (.lastMany phrases)
  cases atEnd with
  | true => exact .pure nofun
  | false =>
      refine .skip fun atEof => ?_
      cases atEof with
      | true => exact .mismatch
      | false => exact (statement_gives gives).yield

theorem parameterType_gives
    (gives : InnerGives kinds inner) :
    Gives kinds (Phrase kinds .parameterType) (parameterType inner) := by
  refine .skip fun open? => ?_
  cases open? with
  | some token => exact .finish rfl .nil
  | none => exact gives.typeExpr.weaken fun _ => Phrase.type_parameterType

theorem parameter?_gives
    (gives : InnerGives kinds inner) :
    Gives kinds (fun parameter? => ∀ parameter ∈ parameter?, Phrase kinds .parameter parameter)
      (parameter? inner) := by
  refine .skip fun start => .skip fun isVariadic => ?_
  cases isVariadic with
  | true => exact .pure nofun
  | false =>
      refine .skip fun _ => .skip fun name => ?_
      refine (parameterType_gives gives).bind fun type typePhrase => ?_
      exact .some (.finish rfl (.one typePhrase .nil))

theorem returnType_gives
    (gives : InnerGives kinds inner) :
    Gives kinds (Phrase kinds .type) (returnType inner) := by
  refine .skip fun bang? => ?_
  cases bang? with
  | some bang =>
      refine gives.typeExpr.bind fun payload payloadPhrase => ?_
      exact .finish rfl (.absent (.one payloadPhrase .nil))
  | none => exact gives.typeExpr

theorem prototype_gives
    (gives : InnerGives kinds inner) :
    Gives kinds (Phrase kinds .prototype) (prototype inner start isPub isExtern) := by
  refine .skip fun main => .skip fun name => .skip fun _ => ?_
  refine .bind (.collect (.skip fun atEnd => ?_)) fun parameters phrases => .skip fun _ =>
    .skip fun _ => (returnType_gives gives).bind fun returned returnedPhrase =>
      .finish rfl (.many phrases (.one returnedPhrase .nil))
  cases atEnd with
  | true => exact .pure nofun
  | false =>
      refine (parameter?_gives gives).bind fun parameter? phrase => ?_
      have phrases : ∀ parameter ∈ parameter?.toList, Phrase kinds .parameter parameter :=
        fun parameter member => phrase parameter (Option.mem_toList.mp member)
      refine .skip fun atEnd => ?_
      cases atEnd with
      | true => exact .pure phrases
      | false => exact .skip fun _ => .pure phrases

theorem fnBody?_gives
    (gives : InnerGives kinds inner) :
    Gives kinds (fun body? => ∀ body ∈ body?, Phrase kinds .block body) (fnBody? inner) := by
  refine .skip fun hasBody => ?_
  cases hasBody with
  | true => exact .skip fun start => (block_gives gives).some
  | false => exact .skip fun _ => .pure nofun

theorem fnDecl_gives
    (gives : InnerGives kinds inner) :
    Gives kinds (Phrase kinds .member) (fnDecl inner start isPub isExtern) := by
  refine (prototype_gives gives).bind fun prototype prototypePhrase => ?_
  refine (fnBody?_gives gives).bind fun body? bodyPhrase => ?_
  exact .finish rfl (.one prototypePhrase (.lastOptional bodyPhrase))

theorem decl_gives
    (gives : InnerGives kinds inner) :
    Gives kinds (Phrase kinds .member) (decl inner start isPub) := by
  refine .skip fun isExtern => .skip fun kind => ?_
  split
  · exact fnDecl_gives gives
  · exact varDecl_gives gives fun _ _ => rfl
  · exact varDecl_gives gives fun _ _ => rfl
  · exact .mismatch

theorem containerField_gives
    (gives : InnerGives kinds inner) :
    Gives kinds (Phrase kinds .member) (containerField inner) := by
  refine .skip fun start => .skip fun _ => .skip fun atName => .skip fun next => ?_
  split
  · refine .skip fun name => gives.typeExpr.after?.bind fun type? typePhrase => ?_
    refine .skip fun _ => (expr_gives gives).after?.bind fun value? valuePhrase => ?_
    exact .finish rfl (.optional typePhrase (.lastOptional valuePhrase))
  · refine gives.typeExpr.bind fun type typePhrase => .skip fun _ => ?_
    refine (expr_gives gives).after?.bind fun value? valuePhrase => ?_
    exact .finish rfl (.present typePhrase (.lastOptional valuePhrase))

theorem testDecl_gives
    (gives : InnerGives kinds inner) :
    Gives kinds (Phrase kinds .member) (testDecl inner) := by
  refine .skip fun main => .skip fun _ => .skip fun start => ?_
  refine (block_gives gives).bind fun body bodyPhrase => ?_
  exact .finish rfl (.one bodyPhrase .nil)

theorem containerMember_gives
    (gives : InnerGives kinds inner) :
    Gives kinds (Phrase kinds .member) (containerMember inner) := by
  refine .skip fun kind => .skip fun next => ?_
  split
  · exact testDecl_gives gives
  · refine .skip fun start => (block_gives gives).bind fun body bodyPhrase => ?_
    exact .finish rfl (.one bodyPhrase.block_operand .nil)
  · refine .skip fun start => .skip fun isPub => .skip fun using? => ?_
    cases using? with
    | some main =>
        refine (expr_gives gives).bind fun expression phrase => .skip fun _ => ?_
        exact .finish rfl (.one phrase .nil)
    | none =>
        refine .skip fun kind => ?_
        split
        · exact decl_gives gives
        · refine (containerField_gives gives).bind fun field phrase => .skip fun atEnd => ?_
          cases atEnd with
          | true => exact .pure phrase
          | false => exact .skip fun _ => .pure phrase

theorem containerMembers_gives
    (gives : InnerGives kinds inner) :
    Gives kinds (fun members => ∀ member ∈ members, Phrase kinds .member member)
      (containerMembers inner) := by
  refine .collect (.skip fun kind => ?_)
  split
  · exact .pure nofun
  · exact .pure nofun
  · exact (containerMember_gives gives).yield

theorem tagType?_gives
    (gives : InnerGives kinds inner) :
    Gives kinds (fun tag? => ∀ tag ∈ tag?, Phrase kinds .expr tag) (tagType? inner) := by
  refine .skip fun isBare => ?_
  cases isBare with
  | true =>
      refine .skip fun atParen => ?_
      cases atParen with
      | true => exact .skip fun _ => .pure nofun
      | false => exact .pure nofun
  | false => exact (expr_gives gives).some

theorem containerTag?_gives
    (gives : InnerGives kinds inner) :
    Gives kinds (fun tag? => ∀ tag ∈ tag?, Phrase kinds .expr tag) (containerTag? inner) := by
  refine .skip fun hasTag => ?_
  cases hasTag with
  | true => exact (tagType?_gives gives).bind fun tag? phrase => .skip fun _ => .pure phrase
  | false => exact .pure nofun

theorem containerDecl_gives
    (gives : InnerGives kinds inner) :
    Gives kinds (Phrase kinds .type) (containerDecl inner) := by
  refine .skip fun start => .skip fun _ => .skip fun keyword => ?_
  split
  · exact .mismatch
  · refine .skip fun main => (containerTag?_gives gives).bind fun tag? tagPhrase => ?_
    refine .skip fun _ => (containerMembers_gives gives).bind fun members memberPhrases => ?_
    exact .skip fun _ => .finish rfl (.optional tagPhrase (.lastMany memberPhrases))

end ZigLint.Parser
