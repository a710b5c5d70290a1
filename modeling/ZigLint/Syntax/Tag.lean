namespace ZigLint

/-!
# Node tags

The closed set of tags a syntax node can carry, and the four kinds of container
declaration. Both are known outside by a lower-case name.
-/

/-- The tags of syntax nodes. -/
inductive NodeTag where
  | root
  | varDecl
  | containerField
  | fnDecl
  | fnProto
  | paramDecl
  | containerDecl
  | errorSetDecl
  | mergeErrorSets
  | testDecl
  | comptimeExpr
  | usingNamespace
  | block
  | identifier
  | fieldAccess
  | builtinCall
  | call
  | ptrType
  | optionalType
  | arrayType
  | errorUnion
  | anyType
  | grouped
  | structInit
  | fieldInit
  | enumLiteral
  | errorValue
  | numberLiteral
  | stringLiteral
  | charLiteral
  | binaryOp
  | unaryOp
  | tryExpr
  | assign
  | deref
  | unwrapOptional
  | arrayAccess
  | returnExpr
  | breakExpr
  | continueExpr
  | deferStmt
  | ifExpr
  | whileLoop
  | forLoop
  | switchExpr
  | switchProng
  | unreachableExpr
  deriving Repr, DecidableEq, Inhabited

namespace NodeTag

/-- Every tag, in the order of declaration. -/
def all : List NodeTag :=
  [.root, .varDecl, .containerField, .fnDecl, .fnProto, .paramDecl, .containerDecl,
    .errorSetDecl, .mergeErrorSets, .testDecl, .comptimeExpr, .usingNamespace, .block,
    .identifier, .fieldAccess, .builtinCall, .call, .ptrType, .optionalType, .arrayType,
    .errorUnion, .anyType, .grouped, .structInit, .fieldInit, .enumLiteral, .errorValue,
    .numberLiteral, .stringLiteral, .charLiteral, .binaryOp, .unaryOp, .tryExpr, .assign,
    .deref, .unwrapOptional, .arrayAccess, .returnExpr, .breakExpr, .continueExpr,
    .deferStmt, .ifExpr, .whileLoop, .forLoop, .switchExpr, .switchProng, .unreachableExpr]

/-- The name of the tag in listings. -/
def name : NodeTag → String
  | .root => "root"
  | .varDecl => "var_decl"
  | .containerField => "container_field"
  | .fnDecl => "fn_decl"
  | .fnProto => "fn_proto"
  | .paramDecl => "param_decl"
  | .containerDecl => "container_decl"
  | .errorSetDecl => "error_set_decl"
  | .mergeErrorSets => "merge_error_sets"
  | .testDecl => "test_decl"
  | .comptimeExpr => "comptime"
  | .usingNamespace => "using_namespace"
  | .block => "block"
  | .identifier => "identifier"
  | .fieldAccess => "field_access"
  | .builtinCall => "builtin_call"
  | .call => "call"
  | .ptrType => "ptr_type"
  | .optionalType => "optional_type"
  | .arrayType => "array_type"
  | .errorUnion => "error_union"
  | .anyType => "any_type"
  | .grouped => "grouped"
  | .structInit => "struct_init"
  | .fieldInit => "field_init"
  | .enumLiteral => "enum_literal"
  | .errorValue => "error_value"
  | .numberLiteral => "number_literal"
  | .stringLiteral => "string_literal"
  | .charLiteral => "char_literal"
  | .binaryOp => "binary_op"
  | .unaryOp => "unary_op"
  | .tryExpr => "try"
  | .assign => "assign"
  | .deref => "deref"
  | .unwrapOptional => "unwrap_optional"
  | .arrayAccess => "array_access"
  | .returnExpr => "return"
  | .breakExpr => "break"
  | .continueExpr => "continue"
  | .deferStmt => "defer"
  | .ifExpr => "if"
  | .whileLoop => "while"
  | .forLoop => "for"
  | .switchExpr => "switch"
  | .switchProng => "switch_prong"
  | .unreachableExpr => "unreachable"

/-- The tag with the given name. -/
def ofName? (name : String) : Option NodeTag :=
  all.find? fun tag => tag.name == name

end NodeTag

/-- The kinds of container declaration. -/
inductive ContainerKind where
  | structKind
  | enumKind
  | unionKind
  | opaqueKind
  deriving Repr, DecidableEq, Inhabited

namespace ContainerKind

/-- Every kind of container, in the order of declaration. -/
def all : List ContainerKind :=
  [.structKind, .enumKind, .unionKind, .opaqueKind]

/-- The keyword that introduces the container. -/
def name : ContainerKind → String
  | .structKind => "struct"
  | .enumKind => "enum"
  | .unionKind => "union"
  | .opaqueKind => "opaque"

/-- The kind with the given name. -/
def ofName? (name : String) : Option ContainerKind :=
  all.find? fun kind => kind.name == name

end ContainerKind

end ZigLint
