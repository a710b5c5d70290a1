namespace ZigLint

/-!
# Declaration kinds

What a declaration holds: a plain value, a function, a value of some container
type, or one of several sorts of type. Kinds are named `name` in messages and
`tag` in listings.
-/

/-- The kinds of declaration. -/
inductive DeclarationKind where
  | other
  | function
  | functionReturnsType
  | structInstance
  | structType
  | enumInstance
  | enumType
  | unionInstance
  | unionType
  | opaqueInstance
  | opaqueType
  | namespaceType
  | errorType
  | type
  | functionType
  | functionTypeReturnsType
  deriving Repr, DecidableEq, Inhabited

namespace DeclarationKind

/-- Every kind, in the order of declaration. -/
def all : List DeclarationKind :=
  [.other, .function, .functionReturnsType, .structInstance, .structType, .enumInstance,
    .enumType, .unionInstance, .unionType, .opaqueInstance, .opaqueType, .namespaceType,
    .errorType, .type, .functionType, .functionTypeReturnsType]

/-- The name of the kind in messages. -/
def name : DeclarationKind → String
  | .other => "declaration"
  | .function => "function"
  | .functionReturnsType => "function returning type"
  | .structInstance => "struct instance"
  | .structType => "struct"
  | .enumInstance => "enum instance"
  | .enumType => "enum"
  | .unionInstance => "union instance"
  | .unionType => "union"
  | .opaqueInstance => "opaque instance"
  | .opaqueType => "opaque"
  | .namespaceType => "namespace"
  | .errorType => "error"
  | .type => "type"
  | .functionType => "function type"
  | .functionTypeReturnsType => "function type returning type"

/-- The name of the kind in listings. -/
def tag : DeclarationKind → String
  | .other => "other"
  | .function => "function"
  | .functionReturnsType => "function_returns_type"
  | .structInstance => "struct_instance"
  | .structType => "struct_type"
  | .enumInstance => "enum_instance"
  | .enumType => "enum_type"
  | .unionInstance => "union_instance"
  | .unionType => "union_type"
  | .opaqueInstance => "opaque_instance"
  | .opaqueType => "opaque_type"
  | .namespaceType => "namespace_type"
  | .errorType => "error_type"
  | .type => "type"
  | .functionType => "function_type"
  | .functionTypeReturnsType => "function_type_returns_type"

/-- The kind with the given tag. -/
def ofTag? (tag : String) : Option DeclarationKind :=
  all.find? fun kind => kind.tag == tag

/-- The kind is that of a type rather than of a value. -/
def isType : DeclarationKind → Bool
  | .structType | .enumType | .unionType | .opaqueType | .namespaceType | .errorType
  | .type | .functionType | .functionTypeReturnsType => true
  | _ => false

end DeclarationKind

end ZigLint
