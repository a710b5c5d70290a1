import ZigLint.Syntax.Tag
import ZigLint.Token.Basic

namespace ZigLint

/-!
# Syntax nodes

A node is described by its form, the tokens it covers and its children. The form
fixes the tag and carries the facts that are not nodes themselves, such as names
and modifiers. Each child stands in a role, so that what a node says about its
parts is read off its list of children.

The same description serves two layouts: `Ast` nests the children directly, as
the parser builds them, and `Node` refers to them by index in a flat list.
-/

/-- Position of a node in the node list of one source; the root is at zero. -/
structure NodeIndex where
  val : Nat
  deriving Repr, DecidableEq, Inhabited

namespace NodeIndex

/-- The largest index that fits into 32 bits. -/
def largest : Nat := 0xFFFFFFFF

/-- The index of the root node. -/
def root : NodeIndex := ⟨0⟩

/-- The index for a position of any size: positions past `largest` all fall together there. -/
def saturating (position : Nat) : NodeIndex := ⟨min position largest⟩

theorem val_inj {one other : NodeIndex} : one.val = other.val ↔ one = other :=
  ⟨fun same => by cases one; cases other; exact congrArg mk same, congrArg val⟩

end NodeIndex

/-- At most `steps` parents of a node, nearest first. -/
def parentChain (parent? : NodeIndex → Option NodeIndex) :
    (steps : Nat) → NodeIndex → List NodeIndex
  | 0, _ => []
  | steps + 1, node =>
      match parent? node with
      | some parent => parent :: parentChain parent? steps parent
      | none => []

/-- What a `const` or `var` declaration says apart from its parts. -/
structure BindingHead where
  name : TokenIndex
  isMutable : Bool
  isPub : Bool
  isExtern : Bool
  deriving Repr, DecidableEq

/-- What a function prototype says apart from its parts; a function type has no name. -/
structure PrototypeHead where
  name : Option TokenIndex
  isPub : Bool
  isExtern : Bool
  deriving Repr, DecidableEq

/-- The form of a node: its tag with the facts that are not nodes. -/
inductive NodeForm where
  | root
  | varDecl (head : BindingHead)
  | containerField (name : Option TokenIndex)
  | fnDecl
  | fnProto (head : PrototypeHead)
  | paramDecl (name : Option TokenIndex)
  | containerDecl (kind : ContainerKind)
  | errorSetDecl
  | mergeErrorSets
  | testDecl
  | comptimeExpr
  | usingNamespace
  | block
  | identifier
  | fieldAccess
  | builtinCall
  | call
  | ptrType
  | optionalType
  | arrayType
  | errorUnion
  | anyType
  | grouped
  | structInit
  | fieldInit
  | enumLiteral
  | errorValue
  | numberLiteral
  | stringLiteral
  | charLiteral
  | binaryOp
  | unaryOp
  | tryExpr
  | assign
  | deref
  | unwrapOptional
  | arrayAccess
  | returnExpr
  | breakExpr
  | continueExpr
  | deferStmt
  | ifExpr
  | whileLoop
  | forLoop
  | switchExpr
  | switchProng
  | unreachableExpr
  deriving Repr, DecidableEq

/-- The tag that the form fixes. -/
def NodeForm.tag : NodeForm → NodeTag
  | .root => .root
  | .varDecl _ => .varDecl
  | .containerField _ => .containerField
  | .fnDecl => .fnDecl
  | .fnProto _ => .fnProto
  | .paramDecl _ => .paramDecl
  | .containerDecl _ => .containerDecl
  | .errorSetDecl => .errorSetDecl
  | .mergeErrorSets => .mergeErrorSets
  | .testDecl => .testDecl
  | .comptimeExpr => .comptimeExpr
  | .usingNamespace => .usingNamespace
  | .block => .block
  | .identifier => .identifier
  | .fieldAccess => .fieldAccess
  | .builtinCall => .builtinCall
  | .call => .call
  | .ptrType => .ptrType
  | .optionalType => .optionalType
  | .arrayType => .arrayType
  | .errorUnion => .errorUnion
  | .anyType => .anyType
  | .grouped => .grouped
  | .structInit => .structInit
  | .fieldInit => .fieldInit
  | .enumLiteral => .enumLiteral
  | .errorValue => .errorValue
  | .numberLiteral => .numberLiteral
  | .stringLiteral => .stringLiteral
  | .charLiteral => .charLiteral
  | .binaryOp => .binaryOp
  | .unaryOp => .unaryOp
  | .tryExpr => .tryExpr
  | .assign => .assign
  | .deref => .deref
  | .unwrapOptional => .unwrapOptional
  | .arrayAccess => .arrayAccess
  | .returnExpr => .returnExpr
  | .breakExpr => .breakExpr
  | .continueExpr => .continueExpr
  | .deferStmt => .deferStmt
  | .ifExpr => .ifExpr
  | .whileLoop => .whileLoop
  | .forLoop => .forLoop
  | .switchExpr => .switchExpr
  | .switchProng => .switchProng
  | .unreachableExpr => .unreachableExpr

/-- The role in which a child stands to its parent. -/
inductive Role where
  | typeExpr
  | value
  | prototype
  | body
  | parameter
  | returnType
  | tagType
  | member
  | inner
  | left
  | right
  | operand
  | callee
  | argument
  | errors
  | payload
  | bound
  | element
  | part
  deriving Repr, DecidableEq

/-- The form of a node and the tokens it covers, `first` and `last` included. -/
structure NodeHead where
  form : NodeForm
  main : TokenIndex
  first : TokenIndex
  last : TokenIndex
  deriving Repr, DecidableEq

namespace NodeHead

/-- The tag of the node. -/
def tag (head : NodeHead) : NodeTag :=
  head.form.tag

end NodeHead

/-- A syntax tree whose nodes hold their children, in source order. -/
inductive Ast where
  | node (head : NodeHead) (children : List (Role × Ast))

namespace Ast

/-- The head of the topmost node. -/
def head : Ast → NodeHead
  | .node head _ => head

/-- The children of the topmost node with their roles. -/
def children : Ast → List (Role × Ast)
  | .node _ children => children

end Ast

/-- A node of a flat node list, which refers to its children by index. -/
structure Node extends NodeHead where
  children : List (Role × NodeIndex)
  deriving Repr, DecidableEq

namespace Node

/-- The first child in the given role. -/
def child? (node : Node) (role : Role) : Option NodeIndex :=
  (node.children.find? fun (childRole, _) => childRole == role).map Prod.snd

/-- All children in the given role, in source order. -/
def childrenIn (node : Node) (role : Role) : List NodeIndex :=
  (node.children.filter fun (childRole, _) => childRole == role).map Prod.snd

/-- The indices of all children, in source order. -/
def childIndices (node : Node) : List NodeIndex :=
  node.children.map Prod.snd

end Node

end ZigLint
