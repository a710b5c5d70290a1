import ZigLint.Declaration.Kind
import ZigLint.Types.Resolution

namespace ZigLint

/-!
# Classifying declarations

A declaration site is the pair of an optional type annotation and an optional
value. The annotation decides the kind if there is one, else the value does; a
site with neither has no kind.
-/

/-- The parts of a declaration that decide its kind. -/
structure DeclarationSite where
  type? : Option NodeIndex
  value? : Option NodeIndex
  deriving Repr, DecidableEq

namespace DeclarationKind

/-- The kind of a value of a container type. -/
def ofContainerValue : ContainerKind → DeclarationKind
  | .structKind => .structInstance
  | .enumKind => .enumInstance
  | .unionKind => .unionInstance
  | .opaqueKind => .opaqueInstance

/-- The kind of a container type; a struct without fields is a namespace. -/
def ofContainerType (kind : ContainerKind) (hasFields : Bool) : DeclarationKind :=
  match kind with
  | .structKind => if hasFields then .structType else .namespaceType
  | .enumKind => .enumType
  | .unionKind => .unionType
  | .opaqueKind => .opaqueType

/-- The kind of a type value of the given shape. -/
def ofTypeShape : TypeShape → DeclarationKind
  | .container kind _ hasFields _ => ofContainerType kind hasFields
  | .function _ returnsType => if returnsType then .functionTypeReturnsType else .functionType
  | _ => .type

/-- The kind of a value whose type has the given shape. -/
def ofValueShape : TypeShape → DeclarationKind
  | .container kind _ _ _ => ofContainerValue kind
  | .function _ returnsType => if returnsType then .functionReturnsType else .function
  | .metaType => .type
  | _ => .other

/-- The kind of a declaration whose value has the given type. -/
def ofValueType (type : ResolvedType) : DeclarationKind :=
  if type.isErrorSet then
    .errorType
  else if type.isTypeValue then
    ofTypeShape type.shape
  else
    ofValueShape type.shape

end DeclarationKind

namespace SyntaxTree

/-- The kind of a declaration that is annotated with the type at `typeNode`. -/
def kindOfAnnotation (tree : SyntaxTree) (typeNode : NodeIndex) : DeclarationKind :=
  let index := tree.unwrapType typeNode
  match tree.form? index with
  | some (.fnProto _) => .ofValueShape (tree.functionShape index index)
  | some (.containerDecl kind) => .ofContainerValue kind
  | _ =>
      if tree.isTypeIdentifier index then
        .type
      else
        match tree.typeOf? index with
        | some type => .ofValueShape type.normalize.shape
        | none => .other

/-- The kind of a declaration without annotation whose value is the node at `value`. -/
def kindOfValue (tree : SyntaxTree) (value : NodeIndex) : DeclarationKind :=
  let index := tree.unwrapType value
  let byType :=
    match tree.typeOf? index with
    | some type => .ofValueType type.normalize
    | none => .other
  match tree.form? index with
  | some .builtinCall =>
      if tree.builtinName? index = some "@TypeOf" ∨ tree.builtinName? index = some "@Type" then
        .type
      else
        byType
  | some .errorSetDecl | some .mergeErrorSets => .errorType
  | some (.containerDecl kind) =>
      .ofContainerType kind ((tree.container? index).any tree.hasFields)
  | _ => byType

/-- The kind of a declaration site. -/
def declarationKind? (tree : SyntaxTree) (site : DeclarationSite) : Option DeclarationKind :=
  match site.type? with
  | some typeNode => some (tree.kindOfAnnotation typeNode)
  | none => site.value?.map tree.kindOfValue

/-- The site of a binding or named field. -/
def site? (tree : SyntaxTree) (index : NodeIndex) : Option DeclarationSite :=
  match tree.binding? index, tree.field? index with
  | some binding, _ => some { type? := binding.type?, value? := binding.value? }
  | none, some field => some { type? := field.type?, value? := field.value? }
  | none, none => none

end SyntaxTree

end ZigLint
