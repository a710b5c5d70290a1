import ZigLint.Proofs.Rule.Requirements
import ZigLint.Proofs.Types.Respelled

namespace ZigLint

/-!
# Requirements and spelling

The naming rules read the kinds of declarations off the tree. Tokens that say the
same wherever resolution reads them leave these kinds as they are, so the rules
require the same of the same names.
-/

namespace SyntaxTree.Respells

variable {tree : SyntaxTree} {source : String} {tokens : Array Token}

theorem namedBinding?_eq
    (respells : tree.Respells source tokens) :
    (tree.respelled source tokens).namedBinding? = tree.namedBinding? := by
  funext node
  simp only [namedBinding?, respells.declarationKind?_eq]
  rfl

theorem namedFunction?_eq
    (respells : tree.Respells source tokens) :
    (tree.respelled source tokens).namedFunction? = tree.namedFunction? := by
  have returnsType_eq : (tree.respelled source tokens).returnsType = tree.returnsType := by
    funext prototype
    simp only [returnsType, unwrapReturnType_respelled, respells.isTypeIdentifier_eq]
  funext node
  simp only [namedFunction?, prototype?_respelled, returnsType_eq]

variable {path : String}

/-- The built-in rules require the same. -/
theorem requirements_eq
    (respells : tree.Respells source tokens)
    (rule : Rule)
    (table : Toml.Table) :
    rule.requirements table (.ofTree path (tree.respelled source tokens)) =
      rule.requirements table (.ofTree path tree) := by
  have declarations_eq :
      (Document.ofTree path (tree.respelled source tokens)).namedDeclarations =
        (Document.ofTree path tree).namedDeclarations := by
    rw [Document.namedDeclarations, Document.namedDeclarations]
    show List.filterMap (tree.respelled source tokens).namedBinding? _ ++
      List.filterMap (tree.respelled source tokens).namedFunction? _ = _
    rw [respells.namedBinding?_eq, respells.namedFunction?_eq]
    rfl
  have fields_eq :
      ∀ styles, FieldNaming.requirement? styles (.ofTree path (tree.respelled source tokens)) =
        FieldNaming.requirement? styles (.ofTree path tree) := by
    intro styles
    funext node
    simp only [FieldNaming.requirement?, Document.ofTree, respells.declarationKind?_eq]
    rfl
  simp only [Rule.requirements, DeclarationNaming.requirements, FieldNaming.requirements,
    declarations_eq, fields_eq]
  rfl

end SyntaxTree.Respells

end ZigLint
