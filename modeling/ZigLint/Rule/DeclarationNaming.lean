import ZigLint.Rule.Basic

namespace ZigLint

/-!
# Naming of declarations

What a declaration holds decides how it is named: types in title case, functions
in camel case, functions that return a type in title case, everything else in
snake case. Every style can be changed by an option.
-/

/-- The styles of the rule, by what a declaration holds. -/
structure DeclarationStyles where
  varDecl : NamingStyle := .snakeCase
  constDecl : NamingStyle := .snakeCase
  function : NamingStyle := .camelCase
  typeFunction : NamingStyle := .titleCase
  structType : NamingStyle := .titleCase
  enumType : NamingStyle := .titleCase
  unionType : NamingStyle := .titleCase
  opaqueType : NamingStyle := .titleCase
  errorType : NamingStyle := .titleCase
  typeAlias : NamingStyle := .titleCase
  functionType : NamingStyle := .titleCase
  namespaceStyle : NamingStyle := .snakeCase
  /-- Leave `extern` and `export` declarations alone. -/
  excludeExtern : Bool := true
  deriving Repr, DecidableEq

/-- A declaration as the rule sees it. -/
structure NamedDeclaration where
  name : TokenIndex
  kind : DeclarationKind
  isMutable : Bool
  isExtern : Bool
  deriving Repr, DecidableEq

namespace DeclarationStyles

/-- The style of a declaration of the given kind. -/
def styleOf (styles : DeclarationStyles) (kind : DeclarationKind) (isMutable : Bool) :
    NamingStyle :=
  match kind with
  | .other | .structInstance | .enumInstance | .unionInstance | .opaqueInstance =>
      if isMutable then styles.varDecl else styles.constDecl
  | .function => styles.function
  | .functionReturnsType => styles.typeFunction
  | .structType => styles.structType
  | .enumType => styles.enumType
  | .unionType => styles.unionType
  | .opaqueType => styles.opaqueType
  | .errorType => styles.errorType
  | .type => styles.typeAlias
  | .functionType | .functionTypeReturnsType => styles.functionType
  | .namespaceType => styles.namespaceStyle

/-- The options of the rule. -/
def fields : List (OptionField DeclarationStyles) :=
  [.style "var_decl" fun style styles => { styles with varDecl := style },
    .style "const_decl" fun style styles => { styles with constDecl := style },
    .style "function" fun style styles => { styles with function := style },
    .style "type_function" fun style styles => { styles with typeFunction := style },
    .style "struct_type" fun style styles => { styles with structType := style },
    .style "enum_type" fun style styles => { styles with enumType := style },
    .style "union_type" fun style styles => { styles with unionType := style },
    .style "opaque_type" fun style styles => { styles with opaqueType := style },
    .style "error_type" fun style styles => { styles with errorType := style },
    .style "type_alias" fun style styles => { styles with typeAlias := style },
    .style "function_type" fun style styles => { styles with functionType := style },
    .style "namespace" fun style styles => { styles with namespaceStyle := style },
    .boolean "exclude_extern" fun truth styles => { styles with excludeExtern := truth }]

end DeclarationStyles

namespace SyntaxTree

/-- The declaration at a binding whose kind is known. -/
def namedBinding? (tree : SyntaxTree) (node : NodeIndex) : Option NamedDeclaration := do
  let binding ← tree.binding? node
  let kind ← tree.declarationKind? { type? := binding.type?, value? := binding.value? }
  return {
    name := binding.name
    kind
    isMutable := binding.isMutable
    isExtern := binding.isExtern
  }

/-- The function returns a type, perhaps as the payload of an error union. -/
def returnsType (tree : SyntaxTree) (prototype : Prototype) : Bool :=
  prototype.returnType?.any fun returned => tree.isTypeIdentifier (tree.unwrapReturnType returned)

/-- The declaration at a function with a name. -/
def namedFunction? (tree : SyntaxTree) (node : NodeIndex) : Option NamedDeclaration := do
  let prototype ← tree.prototype? node
  return {
    name := ← prototype.name
    kind := if tree.returnsType prototype then .functionReturnsType else .function
    isMutable := false
    isExtern := prototype.isExtern
  }

end SyntaxTree

namespace DeclarationKind

/-- The name of the kind with a capital letter. -/
def title (kind : DeclarationKind) : String :=
  match kind.name.toList with
  | first :: rest => String.ofList (first.toUpper :: rest)
  | [] => ""

end DeclarationKind

namespace Document

/-- The declarations with a name and a kind: bindings first, then functions. -/
def namedDeclarations (document : Document) : List NamedDeclaration :=
  (document.nodesWithTag .varDecl).filterMap document.tree.namedBinding? ++
    (document.nodesWithTag .fnDecl).filterMap document.tree.namedFunction?

end Document

namespace DeclarationNaming

/-- The id of the rule. -/
def id : String := "declaration_naming"

/-- The problem of one declaration. -/
def problem? (styles : DeclarationStyles) (severity : Severity) (document : Document)
    (declaration : NamedDeclaration) : Option Problem :=
  if styles.excludeExtern && declaration.isExtern then
    none
  else
    document.nameProblem? id severity (styles.styleOf declaration.kind declaration.isMutable)
      declaration.name s!"{declaration.kind.title} name"

/-- The problems of a document. -/
def check (styles : DeclarationStyles) (severity : Severity) (document : Document) :
    List Problem :=
  document.namedDeclarations.filterMap (problem? styles severity document)

/-- The rule on names of bindings and functions. -/
def rule : Rule :=
  .ofFields id "Enforces naming conventions on declarations based on what they hold" .error
    DeclarationStyles.fields {} check

end DeclarationNaming

end ZigLint
