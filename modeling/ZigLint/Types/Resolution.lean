import ZigLint.Syntax.Tree
import ZigLint.Text.Uppercase
import ZigLint.Types.Shape

namespace ZigLint

/-!
# Type resolution

`SyntaxTree.typeOf?` finds the type of an expression by following names to their
declarations, innermost scope first. Each step from one node to another uses up
one unit of a fixed budget, so that circular definitions come to an end; what
cannot be resolved within the budget has no type.
-/

/-- The primitive types whose names are not a letter with a bit width. -/
def namedPrimitives : List String :=
  ["bool", "void", "noreturn", "usize", "isize", "anyopaque", "anyframe", "comptime_int",
    "comptime_float", "f16", "f32", "f64", "f80", "f128", "c_char", "c_short", "c_ushort",
    "c_int", "c_uint", "c_long", "c_ulong", "c_longlong", "c_ulonglong", "c_longdouble"]

/-- The name is that of an integer type: `u` or `i` and a bit width. -/
def isSizedInteger (name : String) : Bool :=
  match name.toList with
  | sign :: width => (sign == 'u' || sign == 'i') && !width.isEmpty && width.all Char.isDigit
  | [] => false

/-- The name is known without a declaration as that of a primitive type. -/
def isPrimitiveName (name : String) : Bool :=
  isSizedInteger name || namedPrimitives.contains name

/-- The number literal is written with a point or an exponent. -/
def isFloatText (text : List Char) : Bool :=
  !"0x".toList.isPrefixOf text && text.any fun char => char == '.' || char == 'e' || char == 'E'

/-- The last part of a path with slashes. -/
def lastPathPart (path : List Char) : List Char :=
  (path.reverse.takeWhile (· != '/')).reverse

/--
The shape of an imported file.

A file whose name starts with an upper-case letter is a struct with fields; any
other import is a namespace.
-/
def importShape (path : List Char) : TypeShape :=
  let extension := ".zig".toList
  if extension.isSuffixOf path then
    let stem := lastPathPart (path.take (path.length - extension.length))
    .container .structKind none (stem.head?.any Text.isUppercase) (String.ofList stem)
  else
    .container .structKind none false (String.ofList path)

/-- The text without the quotes around it. -/
def trimQuotes (text : List Char) : List Char :=
  ((text.dropWhile (· == '"')).reverse.dropWhile (· == '"')).reverse

namespace SyntaxTree

/-- The scopes around a node, nearest first. -/
def enclosing (tree : SyntaxTree) (index : NodeIndex) : List NodeIndex :=
  parentChain tree.parent? tree.nodes.size index

/-- The first of `candidates` that declares `name`. -/
def declaring? (tree : SyntaxTree) (name : String) (candidates : List NodeIndex) :
    Option NodeIndex :=
  candidates.find? fun candidate => tree.declaredName? candidate == some name

/-- The member of a container that is a field. -/
def isFieldNode (tree : SyntaxTree) (index : NodeIndex) : Bool :=
  tree.tag? index == some .containerField

/-- The declaration of `name` that a single scope holds. -/
def declarationIn? (tree : SyntaxTree) (name : String) (scope : NodeIndex) : Option NodeIndex :=
  match tree.tag? scope with
  | some .containerDecl | some .root =>
      tree.declaring? name
        (((tree.container? scope).map Container.members).getD []
          |>.filter fun member => !tree.isFieldNode member)
  | some .fnProto | some .fnDecl =>
      tree.declaring? name (((tree.prototype? scope).map Prototype.parameters).getD [])
  | some .block =>
      tree.declaring? name
        ((tree.children scope).filter fun statement => tree.tag? statement == some .varDecl)
  | _ => none

/-- The declaration that `name` refers to when it is used at a node. -/
def lookup? (tree : SyntaxTree) (index : NodeIndex) (name : String) : Option NodeIndex :=
  (tree.enclosing index).findSome? (tree.declarationIn? name)

/-- The function with prototype `prototype` that is declared at `node`. -/
def functionShape (tree : SyntaxTree) (prototype node : NodeIndex) : TypeShape :=
  let returnType? := (tree.prototype? prototype).bind Prototype.returnType?
  .function node
    (returnType?.any fun returnType => tree.isTypeIdentifier (tree.unwrapReturnType returnType))

/-- The name of a container: that of the binding it initializes. -/
def containerName (tree : SyntaxTree) (index : NodeIndex) : String :=
  if index = .root then
    "root"
  else
    let parent? := (tree.parent? index).filter fun parent => tree.tag? parent == some .varDecl
    (parent?.bind tree.declaredName?).getD "anonymous"

/-- The shape of a container node. -/
def containerShape? (tree : SyntaxTree) (index : NodeIndex) : Option TypeShape :=
  (tree.container? index).map fun container =>
    .container container.kind (some index) (tree.hasFields container) (tree.containerName index)

/-- The container around a node, as a type. -/
def enclosingContainer? (tree : SyntaxTree) (index : NodeIndex) : Option ResolvedType := do
  let scope ← (tree.enclosing index).find? fun scope =>
    tree.tag? scope == some .containerDecl || tree.tag? scope == some .root
  let shape ← tree.containerShape? scope
  return .typeValue shape

/--
The value of the first `return` with a value below a node, at most `steps` levels down.

Nested containers and functions return on their own and are passed over.
-/
def firstReturnWithin? (tree : SyntaxTree) : (steps : Nat) → NodeIndex → Option NodeIndex
  | 0, _ => none
  | steps + 1, index =>
      match tree.tag? index with
      | some .returnExpr => tree.child? index .operand
      | some .containerDecl | some .fnDecl => none
      | _ => (tree.children index).findSome? (tree.firstReturnWithin? steps)

/-- The value of the first `return` with a value in a function body. -/
def firstReturn? (tree : SyntaxTree) (body : NodeIndex) : Option NodeIndex :=
  tree.firstReturnWithin? tree.nodes.size body

section Steps

/-!
The rules for one node. `typeAt?` stands for the types of other nodes, found
with one unit of budget less.
-/

variable (tree : SyntaxTree) (typeAt? : NodeIndex → Option ResolvedType)

/-- The type of what a declaration declares. -/
def typeOfDeclaration? (declaration : NodeIndex) : Option ResolvedType := do
  let node ← tree.node? declaration
  match node.form with
  | .varDecl _ =>
      match node.child? .typeExpr, node.child? .value with
      | some type, value? =>
          if tree.isTypeIdentifier type then
            return (value?.bind typeAt?).getD (.typeValue .metaType)
          else
            return (← typeAt? type).instantiate
      | none, value? => typeAt? (← value?)
  | .fnDecl => return .valueOf (tree.functionShape (← node.child? .prototype) declaration)
  | .paramDecl _ =>
      let type ← node.child? .typeExpr
      if tree.tag? type = some .anyType then
        none
      else
        return (← typeAt? type).instantiate
  | .containerField (some _) => return (← typeAt? (← node.child? .typeExpr)).instantiate
  | _ => none

/-- The type of a name. -/
def typeOfName? (index : NodeIndex) (name : String) : Option ResolvedType := do
  if name == "type" then
    return .typeValue .metaType
  else if name == "anyerror" then
    return .typeValue .errorSet
  else if name == "true" || name == "false" then
    return .boolean
  else if name == "null" || name == "undefined" then
    none
  else if isPrimitiveName name then
    return .typeValue (.primitive name)
  else
    typeOfDeclaration? tree typeAt? (← tree.lookup? index name)

/-- The type of a prefix operator applied to an operand. -/
def typeOfUnary? (operator : TokenKind) (operand? : Option NodeIndex) : Option ResolvedType :=
  match operator with
  | .bang => some .boolean
  | .ampersand => (operand?.bind typeAt?).map fun type => .valueOf (.pointer type.shape)
  | _ => operand?.bind typeAt?

/-- The type of a binary operator, which its left operand decides. -/
def typeOfBinary? (operator : TokenKind) (left : NodeIndex) : Option ResolvedType :=
  match operator with
  | .keyword .kwAnd | .keyword .kwOr | .equalEqual | .bangEqual
  | .lt | .ltEq | .gt | .gtEq => some .boolean
  | .keyword .kwOrElse => (typeAt? left).bind fun type => type.unwrap? TypeShape.optionalPayload?
  | .keyword .kwCatch => (typeAt? left).bind fun type => type.unwrap? TypeShape.errorUnionPayload?
  | _ => typeAt? left

/-- The type of the member `name` of a value or type `subject`. -/
def typeOfMember? (subject : ResolvedType) (name : String) : Option ResolvedType :=
  match subject.shape.strip with
  | .errorSet => if subject.isTypeValue then some (.valueOf .errorSet) else none
  | .container kind (some node) _ _ => do
      let container ← tree.container? node
      let fields := container.members.filter tree.isFieldNode
      match tree.declaring? name fields with
      | some field =>
          if subject.isTypeValue then
            if kind = .enumKind then some (.valueOf subject.shape.strip) else none
          else
            typeOfDeclaration? tree typeAt? field
      | none =>
          let others := container.members.filter fun member => !tree.isFieldNode member
          typeOfDeclaration? tree typeAt? (← tree.declaring? name others)
  | _ => none

/-- The type of a call of the function at `function`. -/
def typeOfCall? (function : NodeIndex) (returnsType : Bool) : Option ResolvedType :=
  if returnsType then
    let body? := (tree.node? function).bind fun node =>
      if node.form = .fnDecl then node.child? .body else none
    let produced? := ((body?.bind tree.firstReturn?).bind typeAt?).filter ResolvedType.isTypeValue
    some (produced?.getD (.typeValue .metaType))
  else do
    let prototype ← tree.prototype? function
    return (← typeAt? (← prototype.returnType?)).instantiate

/-- The type of a call of a builtin function. -/
def typeOfBuiltin? (index : NodeIndex) (name : String) (first? : Option NodeIndex) :
    Option ResolvedType :=
  match name with
  | "@import" =>
      first?.map fun first => .typeValue (importShape (trimQuotes (tree.mainText first).toList))
  | "@This" => tree.enclosingContainer? index
  | "@TypeOf" =>
      match first?.bind typeAt? with
      | some type => some (.typeValue type.shape)
      | none => some (.typeValue .metaType)
  | "@Type" => some (.typeValue .metaType)
  | "@as" => (first?.bind typeAt?).map ResolvedType.instantiate
  | _ => none

/-- The type of a node. -/
def typeOfNode? (index : NodeIndex) : Option ResolvedType := do
  let node ← tree.node? index
  let text := tree.tokenText node.main
  match node.form with
  | .identifier => typeOfName? tree typeAt? index text
  | .containerDecl _ | .root => return .typeValue (← tree.containerShape? index)
  | .errorSetDecl | .mergeErrorSets => return .typeValue .errorSet
  | .errorValue => return .valueOf .errorSet
  | .fnProto _ => return .typeValue (tree.functionShape index index)
  | .ptrType => return (← typeAt? (← node.child? .inner)).wrap .pointer
  | .optionalType => return (← typeAt? (← node.child? .inner)).wrap .optional
  | .grouped => typeAt? (← node.child? .inner)
  | .arrayType => return (← typeAt? (← node.child? .element)).wrap .array
  | .errorUnion => return (← typeAt? (← node.child? .payload)).wrap .errorUnion
  | .structInit => return (← typeAt? (← node.child? .typeExpr)).instantiate
  | .numberLiteral =>
      let isFloat := isFloatText text.toList
      return .valueOf (.primitive (if isFloat then "comptime_float" else "comptime_int"))
  | .charLiteral => return .valueOf (.primitive "comptime_int")
  | .stringLiteral => return .valueOf (.pointer (.array (.primitive "u8")))
  | .tryExpr =>
      let type ← typeAt? (← node.child? .operand)
      return (type.unwrap? TypeShape.errorUnionPayload?).getD type
  | .deref => (← typeAt? (← node.child? .operand)).unwrap? TypeShape.pointerTarget?
  | .unwrapOptional => (← typeAt? (← node.child? .operand)).unwrap? TypeShape.optionalPayload?
  | .arrayAccess => (← typeAt? (← node.child? .operand)).unwrap? TypeShape.arrayElement?
  | .comptimeExpr => typeAt? (← node.child? .operand)
  | .unaryOp => typeOfUnary? typeAt? (tree.tokenKind node.main) (node.child? .operand)
  | .binaryOp => typeOfBinary? typeAt? (tree.tokenKind node.main) (← node.child? .left)
  | .fieldAccess =>
      typeOfMember? tree typeAt? (← typeAt? (← node.child? .operand)) text
  | .call =>
      match (← typeAt? (← node.child? .callee)).shape with
      | .function function returnsType => typeOfCall? tree typeAt? function returnsType
      | _ => none
  | .builtinCall => typeOfBuiltin? tree typeAt? index text (node.childrenIn .argument).head?
  | _ => none

end Steps

/-- The type of a node within a budget of resolution steps. -/
def typeWithin? (tree : SyntaxTree) : (budget : Nat) → NodeIndex → Option ResolvedType
  | 0, _ => none
  | budget + 1, index => typeOfNode? tree (tree.typeWithin? budget) index

/-- Number of resolution steps spent on one question. -/
def typeBudget : Nat := 65

/-- The type of a node, if it can be found. -/
def typeOf? (tree : SyntaxTree) (index : NodeIndex) : Option ResolvedType :=
  tree.typeWithin? typeBudget index

end SyntaxTree

end ZigLint
