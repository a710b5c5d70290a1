import ZigLint.Syntax.Parser.Primary
import ZigLint.Token.Lexer

namespace ZigLint

/-!
# Syntax trees

A `SyntaxTree` is a parsed source: its text, its tokens, and its nodes in a flat
list. The root is node zero; all other nodes follow in post-order, children
before their parent. The accessors read one node's parts by role and answer
`none` for a node of another form or an index that is not in the tree.
-/

/-- Why a source cannot be parsed. -/
inductive ParseFault where
  | invalidToken
  | unexpected (expectation : Expectation) (found : TokenKind)
  deriving Repr, DecidableEq

/-- A source outside the grammar, with the byte offset of the fault. -/
structure ParseError where
  offset : Nat
  fault : ParseFault
  deriving Repr, DecidableEq

namespace ParseError

/-- The wording of the error. -/
def message (error : ParseError) : String :=
  let detail :=
    match error.fault with
    | .invalidToken => "invalid token"
    | .unexpected expectation found => s!"{expectation.message}, found {found.name}"
  s!"parse error at byte {error.offset}: {detail}"

/-- The error for a mismatch in the token list of a source. -/
def ofMismatch (tokens : Array Token) (mismatch : Mismatch) : ParseError :=
  let found := tokens[mismatch.position.val]?
  {
    offset := ((found.or tokens.back?).map Token.offset).getD 0
    fault := .unexpected mismatch.expectation ((found.map Token.kind).getD .eof)
  }

end ParseError

mutual

/-- Append the nodes of `ast` to `nodes` in post-order, and answer the index of its top node. -/
def Ast.layOut (nodes : Array Node) : Ast → Array Node × NodeIndex
  | .node head children =>
      let (nodes, references) := layOutAll nodes children
      let index := ⟨nodes.size⟩
      (nodes.push { toNodeHead := head, children := references }, index)

/-- Append the nodes of a list of children, and answer their indices with their roles. -/
def layOutAll (nodes : Array Node) :
    List (Role × Ast) → Array Node × List (Role × NodeIndex)
  | [] => (nodes, [])
  | (role, child) :: rest =>
      let (nodes, index) := child.layOut nodes
      let (nodes, references) := layOutAll nodes rest
      (nodes, (role, index) :: references)

end

/-- The head of the root node of a source with `tokenCount` tokens. -/
def NodeHead.ofRoot (tokenCount : Nat) : NodeHead where
  form := .root
  main := ⟨0⟩
  first := ⟨0⟩
  last := ⟨tokenCount - 1⟩

/-- The node list of a file with the given members: the root, then all others in post-order. -/
def nodesOfMembers (tokenCount : Nat) (members : List Ast) : Array Node :=
  let head := NodeHead.ofRoot tokenCount
  let (nodes, references) :=
    layOutAll #[{ toNodeHead := head, children := [] }] (Parser.childrenIn .member members)
  nodes.set! 0 { toNodeHead := head, children := references }

/-- The parent of each node: the first node, in index order, that lists it as a child. -/
def parentTable (nodes : Array Node) : Array (Option NodeIndex) :=
  nodes.toList.zipIdx.foldl
    (fun table (node, index) =>
      node.childIndices.foldl
        (fun table child => table.modify child.val fun known => known.or (some ⟨index⟩))
        table)
    (Array.replicate nodes.size none)

/-- A parsed source. -/
structure SyntaxTree where
  source : String
  tokens : Array Token
  nodes : Array Node
  parents : Array (Option NodeIndex)
  deriving Repr

/-- A `const` or `var` declaration with its parts. -/
structure Binding extends BindingHead where
  type? : Option NodeIndex
  value? : Option NodeIndex
  deriving Repr, DecidableEq

/-- A named container field with its parts. -/
structure Field where
  name : TokenIndex
  type? : Option NodeIndex
  value? : Option NodeIndex
  deriving Repr, DecidableEq

/-- A function prototype with its parts. -/
structure Prototype extends PrototypeHead where
  parameters : List NodeIndex
  returnType? : Option NodeIndex
  deriving Repr, DecidableEq

/-- A container with its members. -/
structure Container where
  kind : ContainerKind
  members : List NodeIndex
  deriving Repr, DecidableEq

namespace SyntaxTree

/-- The node list of a token list. -/
def parseTokens (tokens : Array Token) : Except ParseError (Array Node) :=
  match Parser.file (tokens.map Token.kind) 0 with
  | .error mismatch => .error (.ofMismatch tokens mismatch)
  | .ok (members, _) => .ok (nodesOfMembers tokens.size members)

/-- Parse a source. -/
def parse (source : String) : Except ParseError SyntaxTree :=
  match Token.scan source with
  | .error error => .error { offset := error.offset, fault := .invalidToken }
  | .ok tokenList => do
      let tokens := tokenList.toArray
      let nodes ← parseTokens tokens
      return { source, tokens, nodes, parents := parentTable nodes }

/-- The node at an index. -/
def node? (tree : SyntaxTree) (index : NodeIndex) : Option Node :=
  tree.nodes[index.val]?

/-- The form of a node. -/
def form? (tree : SyntaxTree) (index : NodeIndex) : Option NodeForm :=
  (tree.node? index).map fun node => node.form

/-- The tag of a node. -/
def tag? (tree : SyntaxTree) (index : NodeIndex) : Option NodeTag :=
  (tree.form? index).map NodeForm.tag

/-- The children of a node, in source order. -/
def children (tree : SyntaxTree) (index : NodeIndex) : List NodeIndex :=
  match tree.node? index with
  | some node => node.childIndices
  | none => []

/-- The parent of a node. -/
def parent? (tree : SyntaxTree) (index : NodeIndex) : Option NodeIndex :=
  (tree.parents[index.val]?).join

/-- The child of a node in the given role. -/
def child? (tree : SyntaxTree) (index : NodeIndex) (role : Role) : Option NodeIndex :=
  (tree.node? index).bind fun node => node.child? role

/-- All indices of the tree, in order. -/
def indices (tree : SyntaxTree) : List NodeIndex :=
  (List.range tree.nodes.size).map NodeIndex.mk

/-- Text of a token; empty outside the token list. -/
def tokenText (tree : SyntaxTree) (token : TokenIndex) : String :=
  ((tree.tokens[token.val]?).map Token.text).getD ""

/-- Kind of a token; end of file outside the token list. -/
def tokenKind (tree : SyntaxTree) (token : TokenIndex) : TokenKind :=
  ((tree.tokens[token.val]?).map Token.kind).getD .eof

/-- Byte span of a token; outside the token list, the empty span at the end of the source. -/
def tokenSpan (tree : SyntaxTree) (token : TokenIndex) : Span :=
  match tree.tokens[token.val]? with
  | some token => token.span
  | none => ⟨tree.source.utf8ByteSize, tree.source.utf8ByteSize⟩

/-- Byte span from the first to the last token of a node. -/
def headSpan (tree : SyntaxTree) (head : NodeHead) : Span :=
  (tree.tokenSpan head.first).cover (tree.tokenSpan head.last)

/-- Byte span of a node. -/
def nodeSpan? (tree : SyntaxTree) (index : NodeIndex) : Option Span :=
  (tree.node? index).map fun node => tree.headSpan node.toNodeHead

/-- Text of the main token of a node. -/
def mainText (tree : SyntaxTree) (index : NodeIndex) : String :=
  match tree.node? index with
  | some node => tree.tokenText node.main
  | none => ""

/-- The binding that a node declares. -/
def binding? (tree : SyntaxTree) (index : NodeIndex) : Option Binding := do
  let node ← tree.node? index
  match node.form with
  | .varDecl head =>
      some {
        toBindingHead := head
        type? := node.child? .typeExpr
        value? := node.child? .value
      }
  | _ => none

/-- The named field that a node declares. -/
def field? (tree : SyntaxTree) (index : NodeIndex) : Option Field := do
  let node ← tree.node? index
  match node.form with
  | .containerField (some name) =>
      some { name, type? := node.child? .typeExpr, value? := node.child? .value }
  | _ => none

/-- The prototype at a node of prototype form. -/
def ownPrototype? (tree : SyntaxTree) (index : NodeIndex) : Option Prototype := do
  let node ← tree.node? index
  match node.form with
  | .fnProto head =>
      some {
        toPrototypeHead := head
        parameters := node.childrenIn .parameter
        returnType? := node.child? .returnType
      }
  | _ => none

/-- The prototype of a function declaration or of a prototype node itself. -/
def prototype? (tree : SyntaxTree) (index : NodeIndex) : Option Prototype := do
  let node ← tree.node? index
  match node.form with
  | .fnDecl => tree.ownPrototype? (← node.child? .prototype)
  | _ => tree.ownPrototype? index

/-- The container that a node declares; the whole file is a struct. -/
def container? (tree : SyntaxTree) (index : NodeIndex) : Option Container := do
  let node ← tree.node? index
  match node.form with
  | .containerDecl kind => some { kind, members := node.childrenIn .member }
  | .root => some { kind := .structKind, members := node.childrenIn .member }
  | _ => none

/-- The container has a data field among its members. -/
def hasFields (tree : SyntaxTree) (container : Container) : Bool :=
  container.members.any fun member => tree.tag? member == some .containerField

/-- What a pointer, optional or grouping wraps, and the payload of an error union. -/
def wrapped? (tree : SyntaxTree) (index : NodeIndex) : Option NodeIndex := do
  let node ← tree.node? index
  match node.form with
  | .ptrType | .optionalType | .grouped => node.child? .inner
  | .errorUnion => node.child? .payload
  | _ => none

/-- The two operands of a binary operator, an error-set merge or an assignment. -/
def operands? (tree : SyntaxTree) (index : NodeIndex) : Option (NodeIndex × NodeIndex) := do
  let node ← tree.node? index
  match node.form with
  | .binaryOp | .mergeErrorSets | .assign =>
      some (← node.child? .left, ← node.child? .right)
  | _ => none

/-- The name of a builtin call, with its `@`. -/
def builtinName? (tree : SyntaxTree) (index : NodeIndex) : Option String := do
  let node ← tree.node? index
  match node.form with
  | .builtinCall => some (tree.tokenText node.main)
  | _ => none

/-- The text of an identifier. -/
def identifier? (tree : SyntaxTree) (index : NodeIndex) : Option String := do
  let node ← tree.node? index
  match node.form with
  | .identifier => some (tree.tokenText node.main)
  | _ => none

/-- The name that a binding, function, parameter or named field declares. -/
def declaredName? (tree : SyntaxTree) (index : NodeIndex) : Option String := do
  let node ← tree.node? index
  match node.form with
  | .varDecl head => some (tree.tokenText head.name)
  | .fnDecl => do
      let prototype ← tree.prototype? index
      some (tree.tokenText (← prototype.name))
  | .paramDecl name | .containerField name => some (tree.tokenText (← name))
  | _ => none

/-- The node is the identifier `type`. -/
def isTypeIdentifier (tree : SyntaxTree) (index : NodeIndex) : Bool :=
  tree.identifier? index == some "type"

/-- Follow at most `steps` pointer, optional and grouping wrappers inwards. -/
def unwrapSteps (tree : SyntaxTree) : (steps : Nat) → NodeIndex → NodeIndex
  | 0, index => index
  | steps + 1, index =>
      match tree.tag? index with
      | some .ptrType | some .optionalType | some .grouped =>
          match tree.wrapped? index with
          | some inner => tree.unwrapSteps steps inner
          | none => index
      | _ => index

/-- The node inside all pointer, optional and grouping wrappers. -/
def unwrapType (tree : SyntaxTree) (index : NodeIndex) : NodeIndex :=
  tree.unwrapSteps tree.nodes.size index

/-- Like `unwrapType`, and through one error union to its payload. -/
def unwrapReturnType (tree : SyntaxTree) (index : NodeIndex) : NodeIndex :=
  let inner := tree.unwrapType index
  if tree.tag? inner = some .errorUnion then
    match tree.wrapped? inner with
    | some payload => tree.unwrapType payload
    | none => inner
  else
    inner

end SyntaxTree

end ZigLint
