import ZigLint.Syntax.Parser.Expression

namespace ZigLint

/-!
# Declarations, blocks and containers

Bindings, functions, fields, tests and the containers that hold them, together
with the statements of a block. A declaration may start before its own keyword:
its first token is that of its first modifier.
-/

namespace Parser

/-- A `const` or `var` declaration from its keyword on. -/
def varDecl (inner : Inner) (start : TokenIndex) (isPub isExtern : Bool) : Parser Ast := do
  let isMutable ← isAt (.keyword .kwVar)
  let main ← advance
  let name ← expect .identifier
  let type? ← after? .colon inner.typeExpr
  skipDeclModifiers
  let value? ← after? .equal (expr inner)
  let _ ← expect .semicolon
  finish (.varDecl { name, isMutable, isPub, isExtern }) main start
    (childIn .typeExpr type? ++ childIn .value value?)

/-- A statement that ends in a block takes an optional semicolon, any other a required one. -/
def endStatement : Parser Unit := do
  if (← previous) = .rBrace then
    let _ ← accept .semicolon
  else
    let _ ← expect .semicolon

/-- One statement of a block. -/
def statement (inner : Inner) : Parser Ast := do
  let start ← here
  match ← current, ← peek 1 with
  | .keyword .kwConst, _ | .keyword .kwVar, _ => varDecl inner start false false
  | .keyword .kwComptime, .keyword .kwConst | .keyword .kwComptime, .keyword .kwVar =>
      let _ ← advance
      varDecl inner start false false
  | .keyword .kwDefer, _ | .keyword .kwErrDefer, _ =>
      let main ← advance
      skipCapture
      let body ← assignExpr inner
      endStatement
      finish .deferStmt main main [(.operand, body)]
  | _, _ =>
      let expression ← assignExpr inner
      endStatement
      return expression

/-- A block of statements; the node starts at `start`, which may be a label before the brace. -/
def block (inner : Inner) (start : TokenIndex) : Parser Ast := do
  let brace ← expect .lBrace
  let statements ← collect do
    if ← isAt .rBrace then
      return .done []
    else if ← isAt .eof then
      mismatch .blockEnd
    else
      return .yield [← statement inner]
  let _ ← expect .rBrace
  finish .block brace start (childrenIn .part statements)

/-- The name of a parameter with the colon after it, if there is one. -/
def parameterName? : Parser (Option TokenIndex) := do
  match ← current, ← peek 1 with
  | .identifier, .colon =>
      let name ← advance
      let _ ← advance
      return some name
  | _, _ => return none

/-- The type of a parameter, which may be left open. -/
def parameterType (inner : Inner) : Parser Ast := do
  match ← accept? (.keyword .kwAnyType) with
  | some token => finishLeaf .anyType token
  | none => inner.typeExpr

/-- A function parameter; the dots of a variadic function are read but are no parameter. -/
def parameter? (inner : Inner) : Parser (Option Ast) := do
  let start ← here
  if ← accept .ellipsis then
    return none
  skipEither (.keyword .kwComptime) (.keyword .kwNoAlias)
  let name ← parameterName?
  let type ← parameterType inner
  return some (← finish (.paramDecl name) (name.getD start) start [(.typeExpr, type)])

/-- The return type of a function; a leading `!` makes it an error union with inferred errors. -/
def returnType (inner : Inner) : Parser Ast := do
  match ← accept? .bang with
  | some bang =>
      let payload ← inner.typeExpr
      finish .errorUnion bang bang [(.payload, payload)]
  | none => inner.typeExpr

/-- A function prototype from its keyword on; without a name it is a function type. -/
def prototype (inner : Inner) (start : TokenIndex) (isPub isExtern : Bool) : Parser Ast := do
  let main ← expect (.keyword .kwFn)
  let name ← accept? .identifier
  let _ ← expect .lParen
  let parameters ← collect do
    if ← isAt .rParen then
      return .done []
    else
      let parameter ← parameter? inner
      unless ← isAt .rParen do
        let _ ← expect .comma
      return .yield parameter.toList
  let _ ← expect .rParen
  skipDeclModifiers
  let returned ← returnType inner
  finish (.fnProto { name, isPub, isExtern }) main start
    (childrenIn .parameter parameters ++ [(.returnType, returned)])

/-- The body of a function, or the semicolon in its place. -/
def fnBody? (inner : Inner) : Parser (Option Ast) := do
  if ← isAt .lBrace then
    return some (← block inner (← here))
  else
    let _ ← expect .semicolon
    return none

/-- A function declaration from its keyword on, with a body or a semicolon. -/
def fnDecl (inner : Inner) (start : TokenIndex) (isPub isExtern : Bool) : Parser Ast := do
  let prototype ← prototype inner start isPub isExtern
  let body? ← fnBody? inner
  finish .fnDecl prototype.head.main start
    ((.prototype, prototype) :: childIn .body body?)

/-- Read the modifiers in front of a declaration, and tell whether it is external. -/
def declModifiers : Parser Bool :=
  iterate
    (fun isExtern => do
      match ← current with
      | .keyword .kwExtern =>
          let _ ← advance
          let _ ← accept .string
          return .yield true
      | .keyword .kwExport =>
          let _ ← advance
          return .yield true
      | .keyword .kwInline | .keyword .kwNoInline
      | .keyword .kwThreadLocal | .keyword .kwComptime =>
          let _ ← advance
          return .yield isExtern
      | _ => return .done isExtern)
    false

/-- A function or binding with its modifiers. -/
def decl (inner : Inner) (start : TokenIndex) (isPub : Bool) : Parser Ast := do
  let isExtern ← declModifiers
  match ← current with
  | .keyword .kwFn => fnDecl inner start isPub isExtern
  | .keyword .kwConst | .keyword .kwVar => varDecl inner start isPub isExtern
  | _ => mismatch .declaration

/-- The keywords with which a function or binding starts. -/
def startsDecl : TokenKind → Bool
  | .keyword .kwConst | .keyword .kwVar | .keyword .kwFn | .keyword .kwExtern
  | .keyword .kwExport | .keyword .kwThreadLocal | .keyword .kwInline
  | .keyword .kwNoInline => true
  | _ => false

/-- What may follow the name of a field; anything else makes a nameless field. -/
def followsFieldName : TokenKind → Bool
  | .colon | .comma | .rBrace | .equal => true
  | _ => false

/-- A field of a container, named or nameless. -/
def containerField (inner : Inner) : Parser Ast := do
  let start ← here
  let _ ← accept (.keyword .kwComptime)
  if (← isAt .identifier) && followsFieldName (← peek 1) then
    let name ← advance
    let type? ← after? .colon inner.typeExpr
    skipDeclModifiers
    let value? ← after? .equal (expr inner)
    finish (.containerField (some name)) name start
      (childIn .typeExpr type? ++ childIn .value value?)
  else
    let type ← inner.typeExpr
    skipDeclModifiers
    let value? ← after? .equal (expr inner)
    finish (.containerField none) type.head.first start
      ((.typeExpr, type) :: childIn .value value?)

/-- Skip the name of a test, which is any token but the brace of its body. -/
def skipTestName : Parser Unit := do
  unless ← isAt .lBrace do
    let _ ← advance

/-- A test declaration with an optional name. -/
def testDecl (inner : Inner) : Parser Ast := do
  let main ← advance
  skipTestName
  let body ← block inner (← here)
  finish .testDecl main main [(.operand, body)]

/-- One member of a container, which is not at its end. -/
def containerMember (inner : Inner) : Parser Ast := do
  match ← current, ← peek 1 with
  | .keyword .kwTest, _ => testDecl inner
  | .keyword .kwComptime, .lBrace =>
      let start ← advance
      let body ← block inner start
      finish .comptimeExpr start start [(.operand, body)]
  | _, _ =>
      let start ← here
      let isPub ← accept (.keyword .kwPub)
      match ← accept? (.keyword .kwUsingNamespace) with
      | some main =>
          let expression ← expr inner
          let _ ← expect .semicolon
          finish .usingNamespace main start [(.operand, expression)]
      | none =>
          if startsDecl (← current) then
            decl inner start isPub
          else
            let field ← containerField inner
            unless ← isAt .rBrace do
              let _ ← expect .comma
            return field

/-- The members of a container up to its closing brace or the end of the file. -/
def containerMembers (inner : Inner) : Parser (List Ast) :=
  collect do
    match ← current with
    | .rBrace | .eof => return .done []
    | _ => return .yield [← containerMember inner]

/-- The container that a keyword introduces. -/
def containerKind? : TokenKind → Option ContainerKind
  | .keyword .kwStruct => some .structKind
  | .keyword .kwEnum => some .enumKind
  | .keyword .kwUnion => some .unionKind
  | .keyword .kwOpaque => some .opaqueKind
  | _ => none

/-- What stands in the parentheses of a tag; a bare `enum` tag is read but is no node. -/
def tagType? (inner : Inner) : Parser (Option Ast) := do
  if ← accept (.keyword .kwEnum) then
    if ← isAt .lParen then
      skipParens
    return none
  else
    return some (← expr inner)

/-- The parenthesised tag of a container. -/
def containerTag? (inner : Inner) : Parser (Option Ast) := do
  if ← accept .lParen then
    let tag? ← tagType? inner
    let _ ← expect .rParen
    return tag?
  else
    return none

/-- A container declaration with its members. -/
def containerDecl (inner : Inner) : Parser Ast := do
  let start ← here
  skipEither (.keyword .kwExtern) (.keyword .kwPacked)
  match containerKind? (← current) with
  | none => mismatch .container
  | some kind =>
      let main ← advance
      let tag? ← containerTag? inner
      let _ ← expect .lBrace
      let members ← containerMembers inner
      let _ ← expect .rBrace
      finish (.containerDecl kind) main start
        (childIn .tagType tag? ++ childrenIn .member members)

end Parser

end ZigLint
