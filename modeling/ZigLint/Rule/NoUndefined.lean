import ZigLint.Rule.Basic

namespace ZigLint

/-!
# Uses of `undefined`

Reading undefined memory is illegal, so uses of `undefined` are reported unless
they are known to be harmless: in tests, for bindings and assignment targets
with the name of a buffer, and for `self.*` in methods that end a value's life.
-/

/-- What the rule leaves alone. -/
structure UndefinedExemptions where
  /-- Everything inside tests. -/
  tests : Bool := true
  /-- Bindings and targets with exactly one of these names. -/
  names : List String := []
  /-- Bindings and targets whose name ends so, in whatever case. -/
  endings : List String := ["memory", "mem", "buffer", "buf", "buff"]
  /-- Functions in which `self.*` may be set to `undefined`. -/
  methods : List String := ["deinit"]
  deriving Repr, DecidableEq

namespace UndefinedExemptions

/-- A name in lower case. -/
def lower (name : String) : List Char :=
  name.toList.map Char.toLower

/-- The name may be set to `undefined`. -/
def admitsName (exemptions : UndefinedExemptions) (name : String) : Bool :=
  exemptions.names.contains name ||
    exemptions.endings.any fun ending => (lower ending).isSuffixOf (lower name)

/-- The options of the rule. -/
def fields : List (OptionField UndefinedExemptions) :=
  [.boolean "exclude_tests" fun truth exemptions => { exemptions with tests := truth },
    .texts "exclude_var_decl_name_equals" fun names exemptions =>
      { exemptions with names },
    .texts "exclude_var_decl_name_ends_with" fun endings exemptions =>
      { exemptions with endings },
    .texts "init_method_names" fun methods exemptions => { exemptions with methods }]

end UndefinedExemptions

namespace SyntaxTree

/-- The node is `self.*`. -/
def isSelfDeref (tree : SyntaxTree) (node : NodeIndex) : Bool :=
  tree.tag? node == some .deref &&
    (tree.children node).head?.any fun inner => tree.identifier? inner == some "self"

/-- The name by which an assignment target is judged: that of an identifier or field access. -/
def targetName? (tree : SyntaxTree) (target : NodeIndex) : Option String :=
  match tree.tag? target with
  | some .identifier | some .fieldAccess => some (tree.mainText target)
  | _ => none

end SyntaxTree

namespace Document

/-- The name of the nearest function around a node. -/
def enclosingFnName? (document : Document) (node : NodeIndex) : Option String := do
  let function ← document.enclosingFn? node
  let prototype ← document.tree.prototype? function
  return document.tree.tokenText (← prototype.name)

end Document

namespace NoUndefined

/-- The id of the rule. -/
def id : String := "no_undefined"

/-- The assignment to `target` may set it to `undefined`, which stands at `node`. -/
def admitsTarget (exemptions : UndefinedExemptions) (document : Document)
    (node target : NodeIndex) : Bool :=
  if document.tree.isSelfDeref target then
    (document.enclosingFnName? node).any exemptions.methods.contains
  else
    (document.tree.targetName? target).any exemptions.admitsName

/-- The use of `undefined` at `node` under `parent` is harmless. -/
def admitsUnder (exemptions : UndefinedExemptions) (document : Document)
    (node parent : NodeIndex) : Bool :=
  match document.tree.tag? parent with
  | some .varDecl =>
      (document.tree.binding? parent).any fun binding =>
        exemptions.admitsName (document.tree.tokenText binding.name)
  | some .assign =>
      (document.tree.operands? parent).any fun (target, _) =>
        admitsTarget exemptions document node target
  | _ => false

/-- The use of `undefined` at `node` is harmless. -/
def admits (exemptions : UndefinedExemptions) (document : Document) (node : NodeIndex) : Bool :=
  (exemptions.tests && document.isInTest node) ||
    (document.lineage.parent? node).any (admitsUnder exemptions document node)

/-- The uses of `undefined` in a document. -/
def uses (document : Document) : List NodeIndex :=
  (document.nodesWithTag .identifier).filter fun node =>
    document.tree.identifier? node == some "undefined"

/-- The problem of the use at `node`. -/
def problem? (severity : Severity) (document : Document) (node : NodeIndex) : Option Problem :=
  (document.tree.nodeSpan? node).map fun span =>
    document.problem id severity span "Take care when using `undefined`" none

/-- The problems of a document. -/
def check (exemptions : UndefinedExemptions) (severity : Severity) (document : Document) :
    List Problem :=
  let harmful := (uses document).filter fun node => !admits exemptions document node
  harmful.filterMap (problem? severity document)

/-- The rule on uses of `undefined`. -/
def rule : Rule :=
  .ofFields id "Flags uses of `undefined` outside of allowed contexts" .warning
    UndefinedExemptions.fields {} check

end NoUndefined

end ZigLint
