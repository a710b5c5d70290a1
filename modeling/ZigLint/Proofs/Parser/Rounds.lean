import ZigLint.Syntax.Parser.Primary

namespace ZigLint.Parser

/-!
# The rounds of the loops

Every loop of the grammar repeats one round. Here each round has a name of its own,
and each production that loops is the repetition of a named round.
-/

variable
  {inner : Inner}
  {start : TokenIndex}

/-- One token of a parenthesised group, `level` parentheses deep. -/
def groupRound (level : Nat) : Parser (ForInStep Nat) := do
  match ← current with
  | .lParen =>
      let _ ← advance
      return .yield (level + 1)
  | .rParen =>
      let _ ← advance
      return if level ≤ 1 then .done 0 else .yield (level - 1)
  | .eof => mismatch .closingParenthesis
  | _ =>
      let _ ← advance
      return .yield level

theorem skipParens_eq :
    skipParens = (do
      let _ ← expect .lParen
      let _ ← iterate groupRound 1) :=
  rfl

/-- One token of a capture. -/
def captureRound : Parser Bool := do
  if ← accept .pipe then
    return false
  else if ← isAt .eof then
    mismatch .captureEnd
  else
    let _ ← advance
    return true

theorem skipCapture_eq :
    skipCapture = (do
      if ← accept .pipe then
        repeatWhile captureRound) :=
  rfl

/-- One modifier of a declaration. -/
def declModifierRound : Parser Bool := do
  match ← current with
  | .keyword .kwAlign | .keyword .kwLinkSection
  | .keyword .kwAddrSpace | .keyword .kwCallConv =>
      let _ ← advance
      skipParens
      return true
  | _ => return false

theorem skipDeclModifiers_eq : skipDeclModifiers = repeatWhile declModifierRound :=
  rfl

/-- One qualifier of a pointer type. -/
def pointerModifierRound : Parser Bool := do
  match ← current with
  | .keyword .kwConst | .keyword .kwVolatile | .keyword .kwAllowZero =>
      let _ ← advance
      return true
  | .keyword .kwAlign | .keyword .kwAddrSpace =>
      let _ ← advance
      skipParens
      return true
  | _ => return false

theorem skipPointerModifiers_eq : skipPointerModifiers = repeatWhile pointerModifierRound :=
  rfl

/-- One operator of power `7 - level` with its right operand. -/
def operatorRound
    (inner : Inner)
    (level : Nat)
    (start : TokenIndex)
    (left : Ast) :
    Parser (ForInStep Ast) := do
  let kind ← current
  if kind.bindingPower? = some (7 - level) then
    let operator ← advance
    if kind = .keyword .kwCatch then
      skipCapture
    let right ← binaryExpr inner level
    let form := if kind = .pipePipe then .mergeErrorSets else .binaryOp
    return .yield (← finish form operator start [(.left, left), (.right, right)])
  else
    return .done left

theorem binaryExpr_succ_eq {level : Nat} :
    binaryExpr inner (level + 1) = (do
      let start ← here
      let operand ← binaryExpr inner level
      iterate (operatorRound inner level start) operand) :=
  rfl

/-- One item with the comma after it. -/
def separatedRound
    (closing : TokenKind)
    (item : Parser (List α)) :
    Parser (ForInStep (List α)) := do
  if ← isAt closing then
    return .done []
  else
    let parts ← item
    if ← accept .comma then
      return .yield parts
    else
      return .done parts

theorem separated_eq
    {closing : TokenKind}
    {item : Parser (List α)} :
    separated closing item = collect (separatedRound closing item) :=
  rfl

/-- One statement of a block. -/
def statementRound (inner : Inner) : Parser (ForInStep (List Ast)) := do
  if ← isAt .rBrace then
    return .done []
  else if ← isAt .eof then
    mismatch .blockEnd
  else
    return .yield [← statement inner]

theorem block_eq :
    block inner start = (do
      let brace ← expect .lBrace
      let statements ← collect (statementRound inner)
      let _ ← expect .rBrace
      finish .block brace start (childrenIn .part statements)) :=
  rfl

/-- One parameter with the comma after it. -/
def parameterRound (inner : Inner) : Parser (ForInStep (List Ast)) := do
  if ← isAt .rParen then
    return .done []
  else
    let parameter ← parameter? inner
    unless ← isAt .rParen do
      let _ ← expect .comma
    return .yield parameter.toList

theorem prototype_eq {isPub isExtern : Bool} :
    prototype inner start isPub isExtern = (do
      let main ← expect (.keyword .kwFn)
      let name ← accept? .identifier
      let _ ← expect .lParen
      let parameters ← collect (parameterRound inner)
      let _ ← expect .rParen
      skipDeclModifiers
      let returned ← returnType inner
      finish (.fnProto { name, isPub, isExtern }) main start
        (childrenIn .parameter parameters ++ [(.returnType, returned)])) :=
  rfl

/-- One modifier in front of a declaration. -/
def externRound (isExtern : Bool) : Parser (ForInStep Bool) := do
  match ← current with
  | .keyword .kwExtern =>
      let _ ← advance
      let _ ← accept .string
      return .yield true
  | .keyword .kwExport =>
      let _ ← advance
      return .yield true
  | .keyword .kwInline | .keyword .kwNoInline
  | .keyword .kwThreadLocal | .keyword .kwComptime =>
      let _ ← advance
      return .yield isExtern
  | _ => return .done isExtern

theorem declModifiers_eq : declModifiers = iterate externRound false :=
  rfl

/-- One member of a container. -/
def memberRound (inner : Inner) : Parser (ForInStep (List Ast)) := do
  match ← current with
  | .rBrace | .eof => return .done []
  | _ => return .yield [← containerMember inner]

theorem containerMembers_eq : containerMembers inner = collect (memberRound inner) :=
  rfl

/-- One value that selects a prong, with the comma after it. -/
def prongItemRound (inner : Inner) : Parser (ForInStep (List Ast)) := do
  let item ← expr inner
  let upper? ← after? .ellipsis (expr inner)
  let items := item :: upper?.toList
  if ← accept .comma then
    return if ← isAt .fatArrow then .done items else .yield items
  else
    return .done items

theorem prongItems_eq : prongItems inner = collect (prongItemRound inner) :=
  rfl

/-- One prong of a `switch`. -/
def prongRound (inner : Inner) : Parser (ForInStep (List Ast)) := do
  if ← isAt .rBrace then
    return .done []
  else
    let prong ← switchProng inner
    endProng
    return .yield [prong]

theorem switchExpr_eq :
    switchExpr inner start = (do
      let main ← advance
      let _ ← expect .lParen
      let subject ← expr inner
      let _ ← expect .rParen
      let _ ← expect .lBrace
      let prongs ← collect (prongRound inner)
      let _ ← expect .rBrace
      finish .switchExpr main start ((.part, subject) :: childrenIn .part prongs)) :=
  rfl

/-- One name of an error set with the comma after it. -/
def errorNameRound : Parser Bool := do
  if ← isAt .rBrace then
    return false
  else
    let _ ← expect .identifier
    accept .comma

theorem errorNames_eq :
    errorNames = (do
      repeatWhile errorNameRound
      let _ ← expect .rBrace) :=
  rfl

/-- One access, call or index. -/
def suffixRound
    (inner : Inner)
    (start : TokenIndex)
    (subject : Ast) :
    Parser (ForInStep Ast) := do
  match ← current, ← peek 1 with
  | .dot, .identifier | .dot, .number =>
      let _ ← advance
      let name ← advance
      return .yield (← finish .fieldAccess name start [(.operand, subject)])
  | .dotStar, _ =>
      let operator ← advance
      return .yield (← finish .deref operator start [(.operand, subject)])
  | .dotQuestion, _ =>
      let operator ← advance
      return .yield (← finish .unwrapOptional operator start [(.operand, subject)])
  | .lBracket, _ =>
      let bracket ← advance
      let parts ← indexParts inner
      return .yield
        (← finish .arrayAccess bracket start
          ((.operand, subject) :: childrenIn .part parts))
  | .lParen, _ =>
      let paren ← here
      let arguments ← callArguments inner
      return .yield
        (← finish .call paren start
          ((.callee, subject) :: childrenIn .argument arguments))
  | _, _ => return .done subject

theorem suffixExpr_eq :
    suffixExpr inner = (do
      let start ← here
      let subject ← primaryTypeExpr inner
      iterate (suffixRound inner start) subject) :=
  rfl

end ZigLint.Parser
