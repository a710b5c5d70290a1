import ZigLint.Syntax.Parser.Basic

namespace ZigLint

/-!
# Operator expressions

Every expression is built from prefix expressions and type expressions. Those
two are the only productions through which the grammar comes back to itself, and
each return goes one nesting level deeper. `Inner` holds the two for the next
level, so that all productions are plain definitions over it; `Parser.levels`
ties the knot for a limited number of levels.

Binary operators have seven binding powers and associate to the left.
-/

/-- The two productions that open a new nesting level. -/
structure Inner where
  prefixExpr : Parser Ast
  typeExpr : Parser Ast

namespace TokenKind

/-- How tightly a binary operator binds, from one to seven. -/
def bindingPower? : TokenKind → Option Nat
  | .keyword .kwOr => some 1
  | .keyword .kwAnd => some 2
  | .equalEqual | .bangEqual | .lt | .gt | .ltEq | .gtEq => some 3
  | .ampersand | .caret | .pipe | .keyword .kwOrElse | .keyword .kwCatch => some 4
  | .shl | .shr => some 5
  | .plus | .minus | .plusPlus | .plusWrap | .minusWrap => some 6
  | .pipePipe | .star | .slash | .percent | .starStar | .starWrap => some 7
  | _ => none

end TokenKind

namespace Parser

/-- Skip a token of the one kind or the other, if there is one. -/
def skipEither (one other : TokenKind) : Parser Unit := do
  unless ← accept one do
    let _ ← accept other

/-- Skip a parenthesised group with everything inside it. -/
def skipParens : Parser Unit := do
  let _ ← expect .lParen
  let _ ← iterate
    (fun depth => do
      match ← current with
      | .lParen =>
          let _ ← advance
          return .yield (depth + 1)
      | .rParen =>
          let _ ← advance
          return if depth ≤ 1 then .done 0 else .yield (depth - 1)
      | .eof => mismatch .closingParenthesis
      | _ =>
          let _ ← advance
          return .yield depth)
    1

/-- Skip a capture `|…|`, if there is one. -/
def skipCapture : Parser Unit := do
  if ← accept .pipe then
    repeatWhile do
      if ← accept .pipe then
        return false
      else if ← isAt .eof then
        mismatch .captureEnd
      else
        let _ ← advance
        return true

/-- Skip the alignment, section, address space and calling convention of a declaration. -/
def skipDeclModifiers : Parser Unit :=
  repeatWhile do
    match ← current with
    | .keyword .kwAlign | .keyword .kwLinkSection
    | .keyword .kwAddrSpace | .keyword .kwCallConv =>
        let _ ← advance
        skipParens
        return true
    | _ => return false

/-- Skip the qualifiers of a pointer type. -/
def skipPointerModifiers : Parser Unit :=
  repeatWhile do
    match ← current with
    | .keyword .kwConst | .keyword .kwVolatile | .keyword .kwAllowZero =>
        let _ ← advance
        return true
    | .keyword .kwAlign | .keyword .kwAddrSpace =>
        let _ ← advance
        skipParens
        return true
    | _ => return false

/--
An expression whose binary operators belong to the `level` tightest powers.

At level zero it is a prefix expression; at level `n + 1` it is a sequence of
expressions of level `n` joined by operators of power `7 - n`.
-/
def binaryExpr (inner : Inner) : (level : Nat) → Parser Ast
  | 0 => inner.prefixExpr
  | level + 1 => do
      let start ← here
      let operand ← binaryExpr inner level
      iterate
        (fun left => do
          let kind ← current
          if kind.bindingPower? = some (7 - level) then
            let operator ← advance
            if kind = .keyword .kwCatch then
              skipCapture
            let right ← binaryExpr inner level
            let form := if kind = .pipePipe then .mergeErrorSets else .binaryOp
            return .yield (← finish form operator start [(.left, left), (.right, right)])
          else
            return .done left)
        operand

/-- An expression without assignment. -/
def expr (inner : Inner) : Parser Ast :=
  binaryExpr inner 7

/-- An expression, or an assignment of one expression to another. -/
def assignExpr (inner : Inner) : Parser Ast := do
  let start ← here
  let left ← expr inner
  match ← current with
  | .equal | .compoundAssign =>
      let operator ← advance
      let right ← expr inner
      finish .assign operator start [(.left, left), (.right, right)]
  | _ => return left

/--
Items separated by commas, up to a token of the kind `closing`, which stays unread.

A comma after the last item is read, too.
-/
def separated (closing : TokenKind) (item : Parser (List α)) : Parser (List α) :=
  collect do
    if ← isAt closing then
      return .done []
    else
      let parts ← item
      if ← accept .comma then
        return .yield parts
      else
        return .done parts

/-- The arguments of a call, with their parentheses. -/
def callArguments (inner : Inner) : Parser (List Ast) := do
  let _ ← expect .lParen
  let arguments ← separated .rParen (List.singleton <$> expr inner)
  let _ ← expect .rParen
  return arguments

/-- An entry of an initializer: a field with its value, or a value alone. -/
def initializerEntry (inner : Inner) : Parser Ast := do
  match ← current, ← peek 1, ← peek 2 with
  | .dot, .identifier, .equal =>
      let dot ← advance
      let name ← advance
      let _ ← advance
      let value ← expr inner
      finish .fieldInit name dot [(.operand, value)]
  | _, _, _ => expr inner

/-- The braces of an initializer, for a value of type `type?` or of an inferred type. -/
def initializerList (inner : Inner) (start : TokenIndex) (type? : Option Ast) : Parser Ast := do
  let brace ← expect .lBrace
  let entries ← separated .rBrace (List.singleton <$> initializerEntry inner)
  let _ ← expect .rBrace
  finish .structInit brace start (childIn .typeExpr type? ++ childrenIn .part entries)

end Parser

end ZigLint
