import ZigLint.Syntax.Node

namespace ZigLint

/-!
# Resolved types

A `TypeShape` is what is known about a type: a container, an error set, a
function, a primitive, the type `type`, or one of these in a wrapper. A
`ResolvedType` tells in addition whether the expression *is* that type or is a
value *of* that type.
-/

/-- The shape of a type. -/
inductive TypeShape where
  | container (kind : ContainerKind) (node? : Option NodeIndex) (hasFields : Bool) (name : String)
  | errorSet
  | function (node : NodeIndex) (returnsType : Bool)
  | pointer (target : TypeShape)
  | optional (payload : TypeShape)
  | errorUnion (payload : TypeShape)
  | array (element : TypeShape)
  | primitive (name : String)
  | metaType
  deriving Repr, DecidableEq

namespace TypeShape

/-- The shape inside all pointers, optionals and error unions. -/
def strip : TypeShape → TypeShape
  | .pointer inner | .optional inner | .errorUnion inner => inner.strip
  | shape => shape

/-- A short name for the type. -/
def displayName : TypeShape → String
  | .container _ _ _ name => name
  | .errorSet => "error set"
  | .function _ _ => "fn"
  | .pointer target => "*" ++ target.displayName
  | .optional payload => "?" ++ payload.displayName
  | .errorUnion payload => "!" ++ payload.displayName
  | .array element => "[]" ++ element.displayName
  | .primitive name => name
  | .metaType => "type"

/-- The payload of an optional. -/
def optionalPayload? : TypeShape → Option TypeShape
  | .optional payload => some payload
  | _ => none

/-- The payload of an error union. -/
def errorUnionPayload? : TypeShape → Option TypeShape
  | .errorUnion payload => some payload
  | _ => none

/-- The target of a pointer. -/
def pointerTarget? : TypeShape → Option TypeShape
  | .pointer target => some target
  | _ => none

/-- The element of an array behind any wrappers. -/
def arrayElement? (shape : TypeShape) : Option TypeShape :=
  match shape.strip with
  | .array element => some element
  | _ => none

end TypeShape

/-- A type as an expression shows it. -/
structure ResolvedType where
  shape : TypeShape
  isTypeValue : Bool
  deriving Repr, DecidableEq

namespace ResolvedType

/-- The expression is the type itself. -/
def typeValue (shape : TypeShape) : ResolvedType :=
  { shape, isTypeValue := true }

/-- The expression is a value of the type. -/
def valueOf (shape : TypeShape) : ResolvedType :=
  { shape, isTypeValue := false }

/-- A value whose type is written as this expression; a value of type `type` is a type. -/
def instantiate (type : ResolvedType) : ResolvedType :=
  { shape := type.shape, isTypeValue := type.shape == .metaType }

/-- Put the shape into a wrapper. -/
def wrap (type : ResolvedType) (wrapper : TypeShape → TypeShape) : ResolvedType :=
  { type with shape := wrapper type.shape }

/-- Take a part of the shape out, if it is there. -/
def unwrap? (type : ResolvedType) (part? : TypeShape → Option TypeShape) : Option ResolvedType :=
  (part? type.shape).map fun shape => { type with shape }

/-- The same type without pointer, optional and error-union wrappers. -/
def normalize (type : ResolvedType) : ResolvedType :=
  { type with shape := type.shape.strip }

/-- The container of the shape is of the given kind. -/
def isContainer (type : ResolvedType) (wanted : ContainerKind) : Bool :=
  match type.shape with
  | .container kind _ _ _ => kind == wanted
  | _ => false

/-- A struct without data fields. -/
def isNamespace (type : ResolvedType) : Bool :=
  match type.shape with
  | .container .structKind _ hasFields _ => !hasFields
  | _ => false

/-- A function or function type. -/
def isFunction (type : ResolvedType) : Bool :=
  match type.shape with
  | .function _ _ => true
  | _ => false

/-- A function or function type that returns `type`. -/
def isTypeFunction (type : ResolvedType) : Bool :=
  match type.shape with
  | .function _ returnsType => returnsType
  | _ => false

/-- The type `type`. -/
def isMetaType (type : ResolvedType) : Bool :=
  type.shape == .metaType

/-- An error set. -/
def isErrorSet (type : ResolvedType) : Bool :=
  type.shape == .errorSet

/-- A primitive type. -/
def isPrimitive (type : ResolvedType) : Bool :=
  match type.shape with
  | .primitive _ => true
  | _ => false

/-- The names of the predicates that hold, in a fixed order. -/
def flags (type : ResolvedType) : List String :=
  ([ (type.isTypeValue, "type_value"),
     (type.isFunction, "func"),
     (type.isTypeFunction, "type_func"),
     (type.isContainer .structKind, "struct"),
     (type.isContainer .enumKind, "enum"),
     (type.isContainer .unionKind, "union"),
     (type.isContainer .opaqueKind, "opaque"),
     (type.isNamespace, "namespace"),
     (type.isMetaType, "meta"),
     (type.isErrorSet, "error_set"),
     (type.isPrimitive, "primitive") ].filter Prod.fst).map Prod.snd

/-- A value of the boolean type. -/
def boolean : ResolvedType :=
  valueOf (.primitive "bool")

end ResolvedType

end ZigLint
