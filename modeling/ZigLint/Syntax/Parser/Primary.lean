import ZigLint.Syntax.Parser.Declaration

namespace ZigLint

/-!
# Primary and type expressions

Control flow, literals, calls, suffixes and types: the productions that open a
nesting level, and `levels`, which allows a limited number of them. With no
level left both productions fail, so no source can nest without bound.
-/

namespace Parser

/-- A branch after `else`, if there is one. -/
def elseBranch? (inner : Inner) : Parser (Option Ast) :=
  after? (.keyword .kwElse) do
    skipCapture
    assignExpr inner

/-- An `if` with its condition and branches. -/
def ifExpr (inner : Inner) (start : TokenIndex) : Parser Ast := do
  let main ← advance
  let _ ← expect .lParen
  let condition ← expr inner
  let _ ← expect .rParen
  skipCapture
  let thenBranch ← assignExpr inner
  let otherwise? ← elseBranch? inner
  finish .ifExpr main start
    ([(.part, condition), (.part, thenBranch)] ++ childIn .part otherwise?)

/-- What follows two dots in a range: its end, unless the range is open. -/
def rangeEnd? (inner : Inner) (isOpen : TokenKind → Bool) : Parser (Option Ast) := do
  if ← accept .dotDot then
    if isOpen (← current) then
      return none
    else
      return some (← expr inner)
  else
    return none

/-- The kinds right after the dots of an open range in the inputs of a loop. -/
def endsInputRange : TokenKind → Bool
  | .rParen | .comma => true
  | _ => false

/-- One input of a `for` loop, which may be a range. -/
def forInput (inner : Inner) : Parser (List Ast) := do
  let input ← expr inner
  let bound? ← rangeEnd? inner endsInputRange
  return input :: bound?.toList

/-- The condition of a `while` loop or the inputs of a `for` loop. -/
def loopInputs (inner : Inner) (isFor : Bool) : Parser (List Ast) :=
  if isFor then
    separated .rParen (forInput inner)
  else
    List.singleton <$> expr inner

/-- The expression that a `while` loop evaluates after each round. -/
def loopContinuation? (inner : Inner) (isFor : Bool) : Parser (Option Ast) :=
  if isFor then
    return none
  else
    after? .colon do
      let _ ← expect .lParen
      let continuation ← assignExpr inner
      let _ ← expect .rParen
      return continuation

/-- A `for` or `while` loop from its keyword on. -/
def loopExpr (inner : Inner) (start : TokenIndex) : Parser Ast := do
  let isFor ← isAt (.keyword .kwFor)
  let main ← advance
  let _ ← expect .lParen
  let inputs ← loopInputs inner isFor
  let _ ← expect .rParen
  skipCapture
  let continuation? ← loopContinuation? inner isFor
  let body ← assignExpr inner
  let otherwise? ← elseBranch? inner
  finish (if isFor then .forLoop else .whileLoop) main start
    (childrenIn .part inputs ++ childIn .part continuation? ++ [(.part, body)] ++
      childIn .part otherwise?)

/-- The values that select a prong, separated by commas. -/
def prongItems (inner : Inner) : Parser (List Ast) :=
  collect do
    let item ← expr inner
    let upper? ← after? .ellipsis (expr inner)
    let items := item :: upper?.toList
    if ← accept .comma then
      return if ← isAt .fatArrow then .done items else .yield items
    else
      return .done items

/-- What selects a prong: `else`, or a list of values. -/
def prongSelector (inner : Inner) : Parser (List Ast) := do
  if ← accept (.keyword .kwElse) then
    return []
  else
    prongItems inner

/-- One prong of a `switch`, up to its separator. -/
def switchProng (inner : Inner) : Parser Ast := do
  let start ← here
  let _ ← accept (.keyword .kwInline)
  let items ← prongSelector inner
  let arrow ← expect .fatArrow
  skipCapture
  let body ← assignExpr inner
  finish .switchProng arrow start (childrenIn .part items ++ [(.part, body)])

/-- The comma after a prong, which may be left out after a brace and before the last one. -/
def endProng : Parser Unit := do
  unless ← accept .comma do
    unless ← isAt .rBrace do
      if (← previous) ≠ .rBrace then
        mismatch .prongSeparator

/-- A `switch` with its prongs. -/
def switchExpr (inner : Inner) (start : TokenIndex) : Parser Ast := do
  let main ← advance
  let _ ← expect .lParen
  let subject ← expr inner
  let _ ← expect .rParen
  let _ ← expect .lBrace
  let prongs ← collect do
    if ← isAt .rBrace then
      return .done []
    else
      let prong ← switchProng inner
      endProng
      return .yield [prong]
  let _ ← expect .rBrace
  finish .switchExpr main start ((.part, subject) :: childrenIn .part prongs)

/-- A type expression, with braces after it an initializer. -/
def curlySuffixExpr (inner : Inner) : Parser Ast := do
  let start ← here
  let type ← inner.typeExpr
  if ← isAt .lBrace then
    initializerList inner start (some type)
  else
    return type

/-- The kinds that cannot start the operand of `return` or `break`. -/
def endsOperand : TokenKind → Bool
  | .semicolon | .rParen | .rBrace | .rBracket | .comma | .colon | .eof
  | .keyword .kwElse => true
  | _ => false

/-- The operand of `return` or `break`, if one follows. -/
def operand? (inner : Inner) : Parser (Option Ast) := do
  if endsOperand (← current) then
    return none
  else
    return some (← expr inner)

/-- Skip the label after `break` or `continue`, if there is one. -/
def skipJumpLabel : Parser Unit := do
  match ← current, ← peek 1 with
  | .colon, .identifier =>
      let _ ← advance
      let _ ← advance
  | _, _ => return ()

/-- A jump, a control structure, a block or a type expression. -/
def primaryExpr (inner : Inner) : Parser Ast := do
  let start ← here
  match ← current, ← peek 1, ← peek 2 with
  | .keyword .kwReturn, _, _ =>
      let _ ← advance
      let value? ← operand? inner
      finish .returnExpr start start (childIn .operand value?)
  | .keyword .kwBreak, _, _ =>
      let _ ← advance
      skipJumpLabel
      let value? ← operand? inner
      finish .breakExpr start start (childIn .operand value?)
  | .keyword .kwContinue, _, _ =>
      let _ ← advance
      skipJumpLabel
      finish .continueExpr start start []
  | .keyword .kwIf, _, _ => ifExpr inner start
  | .keyword .kwWhile, _, _ | .keyword .kwFor, _, _ => loopExpr inner start
  | .keyword .kwInline, .keyword .kwWhile, _ | .keyword .kwInline, .keyword .kwFor, _ =>
      let _ ← advance
      loopExpr inner start
  | .keyword .kwSwitch, _, _ => switchExpr inner start
  | .lBrace, _, _ => block inner start
  | .identifier, .colon, .lBrace =>
      let _ ← advance
      let _ ← advance
      block inner start
  | .identifier, .colon, .keyword .kwWhile | .identifier, .colon, .keyword .kwFor
  | .identifier, .colon, .keyword .kwInline =>
      let _ ← advance
      let _ ← advance
      let _ ← accept (.keyword .kwInline)
      loopExpr inner start
  | _, _, _ => curlySuffixExpr inner

/-- A prefix operator with its operand, or a primary expression. -/
def unaryExpr (inner : Inner) : Parser Ast := do
  let start ← here
  match ← current with
  | .bang | .minus | .minusWrap | .tilde | .ampersand =>
      let _ ← advance
      let operand ← inner.prefixExpr
      finish .unaryOp start start [(.operand, operand)]
  | .keyword .kwTry =>
      let _ ← advance
      let operand ← inner.prefixExpr
      finish .tryExpr start start [(.operand, operand)]
  | .keyword .kwComptime =>
      let _ ← advance
      let operand ← inner.prefixExpr
      finish .comptimeExpr start start [(.operand, operand)]
  | .keyword .kwNoSuspend =>
      let _ ← advance
      inner.prefixExpr
  | _ => primaryExpr inner

/-- The names of an error set and its closing brace. -/
def errorNames : Parser Unit := do
  repeatWhile do
    if ← isAt .rBrace then
      return false
    else
      let _ ← expect .identifier
      accept .comma
  let _ ← expect .rBrace

/-- A literal, a name, a call of a builtin, a grouped expression or a type without wrappers. -/
def primaryTypeExpr (inner : Inner) : Parser Ast := do
  let start ← here
  match ← current, ← peek 1 with
  | .builtin, _ =>
      let _ ← advance
      let arguments ← callArguments inner
      finish .builtinCall start start (childrenIn .argument arguments)
  | .identifier, _ | .keyword .kwAnyFrame, _ =>
      let _ ← advance
      finishLeaf .identifier start
  | .number, _ =>
      let _ ← advance
      finishLeaf .numberLiteral start
  | .char, _ =>
      let _ ← advance
      finishLeaf .charLiteral start
  | .string, _ =>
      let _ ← advance
      finishLeaf .stringLiteral start
  | .multilineStringLine, _ =>
      repeatWhile (accept .multilineStringLine)
      finishLeaf .stringLiteral start
  | .keyword .kwUnreachable, _ =>
      let _ ← advance
      finishLeaf .unreachableExpr start
  | .dot, .identifier =>
      let _ ← advance
      let name ← advance
      finish .enumLiteral name start []
  | .dot, .lBrace =>
      let _ ← advance
      initializerList inner start none
  | .keyword .kwError, .dot =>
      let _ ← advance
      let _ ← advance
      let name ← expect .identifier
      finish .errorValue name start []
  | .keyword .kwError, .lBrace =>
      let _ ← advance
      let _ ← advance
      errorNames
      finishLeaf .errorSetDecl start
  | .keyword .kwFn, _ => prototype inner start false false
  | .lParen, _ =>
      let _ ← advance
      let expression ← expr inner
      let _ ← expect .rParen
      finish .grouped start start [(.inner, expression)]
  | .keyword .kwStruct, _ | .keyword .kwEnum, _ | .keyword .kwUnion, _
  | .keyword .kwOpaque, _
  | .keyword .kwExtern, .keyword .kwStruct | .keyword .kwExtern, .keyword .kwUnion
  | .keyword .kwExtern, .keyword .kwEnum
  | .keyword .kwPacked, .keyword .kwStruct | .keyword .kwPacked, .keyword .kwUnion
  | .keyword .kwPacked, .keyword .kwEnum => containerDecl inner
  | .keyword .kwComptime, _ =>
      let _ ← advance
      let type ← inner.typeExpr
      finish .comptimeExpr start start [(.operand, type)]
  | .keyword .kwIf, _ => ifExpr inner start
  | .keyword .kwSwitch, _ => switchExpr inner start
  | _, _ => mismatch .expression

/-- The kinds right after the dots of an open range in an index. -/
def endsIndexRange : TokenKind → Bool
  | .rBracket | .colon => true
  | _ => false

/-- The brackets of an index or slice with the children they add. -/
def indexParts (inner : Inner) : Parser (List Ast) := do
  let index ← expr inner
  let stop? ← rangeEnd? inner endsIndexRange
  let sentinel? ← after? .colon (expr inner)
  let _ ← expect .rBracket
  return index :: (stop?.toList ++ sentinel?.toList)

/-- A primary type expression with its accesses, calls and indices. -/
def suffixExpr (inner : Inner) : Parser Ast := do
  let start ← here
  let subject ← primaryTypeExpr inner
  iterate
    (fun subject => do
      match ← current, ← peek 1 with
      | .dot, .identifier | .dot, .number =>
          let _ ← advance
          let name ← advance
          return .yield (← finish .fieldAccess name start [(.operand, subject)])
      | .dotStar, _ =>
          let operator ← advance
          return .yield (← finish .deref operator start [(.operand, subject)])
      | .dotQuestion, _ =>
          let operator ← advance
          return .yield (← finish .unwrapOptional operator start [(.operand, subject)])
      | .lBracket, _ =>
          let bracket ← advance
          let parts ← indexParts inner
          return .yield
            (← finish .arrayAccess bracket start
              ((.operand, subject) :: childrenIn .part parts))
      | .lParen, _ =>
          let paren ← here
          let arguments ← callArguments inner
          return .yield
            (← finish .call paren start
              ((.callee, subject) :: childrenIn .argument arguments))
      | _, _ => return .done subject)
    subject

/-- A suffix expression, or an error union with one on its left. -/
def errorUnionExpr (inner : Inner) : Parser Ast := do
  let start ← here
  let errors ← suffixExpr inner
  match ← accept? .bang with
  | some bang =>
      let payload ← inner.typeExpr
      finish .errorUnion bang start [(.errors, errors), (.payload, payload)]
  | none => return errors

/--
What stands in the brackets of a pointer or array type: the bounds, and whether
the type is an array.
-/
def bracketBounds (inner : Inner) : Parser (List Ast × Bool) := do
  match ← current with
  | .rBracket => return ([], false)
  | .star =>
      let _ ← advance
      let _ ← accept .identifier
      let sentinel? ← after? .colon (expr inner)
      return (sentinel?.toList, false)
  | .colon =>
      let _ ← advance
      return ([← expr inner], false)
  | _ =>
      let length ← expr inner
      let sentinel? ← after? .colon (expr inner)
      return (length :: sentinel?.toList, true)

/-- A pointer or array type that starts with a bracket. -/
def bracketType (inner : Inner) (start : TokenIndex) : Parser Ast := do
  let _ ← advance
  let (bounds, isArray) ← bracketBounds inner
  let _ ← expect .rBracket
  skipPointerModifiers
  let element ← inner.typeExpr
  if isArray then
    finish .arrayType start start (childrenIn .bound bounds ++ [(.element, element)])
  else
    finish .ptrType start start (childrenIn .bound bounds ++ [(.inner, element)])

/-- A type with its optional, pointer and array wrappers. -/
def wrappedTypeExpr (inner : Inner) : Parser Ast := do
  let start ← here
  match ← current with
  | .question =>
      let _ ← advance
      let type ← inner.typeExpr
      finish .optionalType start start [(.inner, type)]
  | .star | .starStar =>
      let _ ← advance
      skipPointerModifiers
      let type ← inner.typeExpr
      finish .ptrType start start [(.inner, type)]
  | .lBracket => bracketType inner start
  | _ => errorUnionExpr inner

/-- The nesting productions when `count` further levels are allowed. -/
def levels : (count : Nat) → Inner
  | 0 => {
      prefixExpr := mismatch .shallowerNesting
      typeExpr := mismatch .shallowerNesting
    }
  | count + 1 => {
      prefixExpr := unaryExpr (levels count)
      typeExpr := wrappedTypeExpr (levels count)
    }

/-- Number of nesting levels a source may use. -/
def maxLevels : Nat := 256

/-- The members of a whole file. -/
def file : Parser (List Ast) := do
  let members ← containerMembers (levels maxLevels)
  if ← isAt .eof then
    return members
  else
    mismatch .declaration

end Parser

end ZigLint
