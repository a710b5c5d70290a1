import ZigLint.Rule.Basic

namespace ZigLint

/-!
# Naming of fields

Fields of structs, unions and enums are named in snake case, fields that hold a
type in title case and fields that hold a function in camel case. Every style
can be changed by an option.
-/

/-- The styles of the rule, by where a field stands and what it holds. -/
structure FieldStyles where
  structField : NamingStyle := .snakeCase
  unionField : NamingStyle := .snakeCase
  enumField : NamingStyle := .snakeCase
  typeField : NamingStyle := .titleCase
  functionField : NamingStyle := .camelCase
  deriving Repr, DecidableEq

namespace FieldStyles

/-- The style of a field of the given kind in a container. -/
def styleOf (styles : FieldStyles) (container : ContainerKind) (kind? : Option DeclarationKind) :
    NamingStyle :=
  if container = .enumKind then
    styles.enumField
  else if kind? = some .function then
    styles.functionField
  else if kind?.any fun kind => kind = .functionReturnsType || kind.isType then
    styles.typeField
  else if container = .unionKind then
    styles.unionField
  else
    styles.structField

/-- The options of the rule. -/
def fields : List (OptionField FieldStyles) :=
  [.style "struct_field" fun style styles => { styles with structField := style },
    .style "union_field" fun style styles => { styles with unionField := style },
    .style "enum_field" fun style styles => { styles with enumField := style },
    .style "type_field" fun style styles => { styles with typeField := style },
    .style "function_field" fun style styles => { styles with functionField := style }]

end FieldStyles

namespace Document

/-- The kind of the container around a field; outside any container, a struct. -/
def containerKindAround (document : Document) (field : NodeIndex) : ContainerKind :=
  let container? := (document.lineage.parent? field).bind document.tree.container?
  (container?.map Container.kind).getD .structKind

end Document

namespace FieldNaming

/-- The id of the rule. -/
def id : String := "field_naming"

/-- The problem of one field. -/
def problem? (styles : FieldStyles) (severity : Severity) (document : Document)
    (node : NodeIndex) : Option Problem := do
  let field ← document.tree.field? node
  let kind? := document.tree.declarationKind? { type? := field.type?, value? := field.value? }
  let style := styles.styleOf (document.containerKindAround node) kind?
  document.nameProblem? id severity style field.name "Field"

/-- The problems of a document. -/
def check (styles : FieldStyles) (severity : Severity) (document : Document) : List Problem :=
  (document.nodesWithTag .containerField).filterMap (problem? styles severity document)

/-- The rule on names of container fields. -/
def rule : Rule :=
  .ofFields id "Enforces naming conventions on container fields" .error FieldStyles.fields {} check

end FieldNaming

end ZigLint
