import ZigLint.Document
import ZigLint.Proofs.Lineage.Agreement
import ZigLint.Proofs.Syntax.Containment

namespace ZigLint

/-!
# Ancestry is lexical containment

The ancestors of a node cover it, and of two nodes one is an ancestor of the
other one or they stand apart. So a node that covers another one is its ancestor
unless it is its descendant, with the same range. Tests and functions are smaller
than all their ancestors, so for them covering and being an ancestor is the same,
and the functions around a node start one after the other, the nearest one last.
-/

namespace Ancestry

variable
  {parent? : NodeIndex → Option NodeIndex}
  {node ancestor : NodeIndex}
  {before after : List NodeIndex}

/-- Behind an ancestor stand the ancestors of this ancestor. -/
theorem of_append
    (ancestry : Ancestry parent? node (before ++ ancestor :: after)) :
    Ancestry parent? ancestor after := by
  induction before generalizing node with
  | nil =>
      cases ancestry with
      | step _ ancestry => exact ancestry
  | cons _ _ inductionHypothesis =>
      cases ancestry with
      | step _ ancestry => exact inductionHypothesis ancestry

end Ancestry

namespace SyntaxTree

open Lineage (ofTree)

variable
  {source : String}
  {tree : SyntaxTree}
  {index ancestor left right : NodeIndex}
  {node ancestorNode : Node}
  {chain : List NodeIndex}

/-- The ancestors of a node cover it. -/
theorem covers_of_ancestry
    (parsed : parse source = .ok tree)
    (ancestry : Ancestry (ofTree tree).parent? index chain)
    (member : ancestor ∈ chain) :
    tree.Covers ancestor index := by
  induction ancestry with
  | top _ => cases member
  | step hasParent _ inductionHypothesis =>
      have covers := parse_covers_child parsed ((Lineage.ofTree_parent?_iff parsed).mp hasParent)
      rcases List.mem_cons.mp member with rfl | member
      · exact covers
      · exact (inductionHypothesis member).trans covers

/-- How two nodes stand to each other when `chain` lists the ancestors of the left one. -/
inductive Standing
    (tree : SyntaxTree)
    (left : NodeIndex)
    (chain : List NodeIndex)
    (right : NodeIndex) :
    Prop where
  | same : left = right → Standing tree left chain right
  | above : left ∈ (ofTree tree).ancestors right → Standing tree left chain right
  | below : right ∈ chain → Standing tree left chain right
  | apart : tree.Apart left right → Standing tree left chain right

/-- Of two nodes one is an ancestor of the other one, or they stand apart. -/
theorem standing_of_ancestry
    (parsed : parse source = .ok tree)
    (leftInside : left.val < tree.nodes.size)
    (rightInside : right.val < tree.nodes.size)
    (ancestry : Ancestry (ofTree tree).parent? left chain) :
    tree.Standing left chain right := by
  have rightAncestry := Lineage.ofTree_ancestry parsed rightInside
  induction ancestry with
  | top orphan =>
      obtain rfl := Lineage.eq_root_of_orphan parsed leftInside orphan
      by_cases isRoot : right = .root
      · exact .same isRoot.symm
      · exact .above (List.mem_of_getLast?
          (Lineage.ofTree_ancestors_getLast? parsed isRoot rightInside))
  | @step left parent chain hasParent _ inductionHypothesis =>
      have isChild := (Lineage.ofTree_parent?_iff parsed).mp hasParent
      obtain ⟨parentNode, parentFound, -⟩ := mem_children_iff.mp isChild
      cases inductionHypothesis (Array.getElem?_eq_some_iff.mp parentFound).1 with
      | same isParent => exact .below (isParent ▸ List.mem_cons_self)
      | above isAncestor =>
          -- The way up from the right node comes to the parent from the left node or a sibling.
          obtain ⟨child, onChain, childParent⟩ := rightAncestry.exists_child isAncestor
          by_cases isLeft : left = child
          · subst isLeft
            exact (List.mem_cons.mp onChain).elim .same .above
          · have apart := parse_siblings_apart parsed isChild
              ((Lineage.ofTree_parent?_iff parsed).mp childParent) isLeft
            rcases List.mem_cons.mp onChain with rfl | onChain
            · exact .apart apart
            · have covers := covers_of_ancestry parsed rightAncestry onChain
              exact .apart (apart.symm.of_covers covers).symm
      | below isBelow => exact .below (List.mem_cons_of_mem _ isBelow)
      | apart apart => exact .apart (apart.of_covers (parse_covers_child parsed isChild))

/-- The owner of what can only be a member is the nearest one of its ancestors. -/
theorem exists_owner_of_ancestry
    (parsed : parse source = .ok tree)
    (found : tree.node? index = some node)
    (isOnlyMember : node.form.isOnlyMember = true)
    (ancestry : Ancestry (ofTree tree).parent? index chain) :
    ∃ owner ownerNode above,
      chain = owner :: above ∧
        Ancestry (ofTree tree).parent? owner above ∧
          tree.node? owner = some ownerNode ∧
            ownerNode.form.hasMembers = true ∧
              (ownerNode.first.val < node.first.val ∨
                owner = .root ∧ node.last.val < ownerNode.last.val) := by
  obtain ⟨owner, ownerNode, ownerFound, hasMembers, isChild, smaller⟩ :=
    parse_member_within parsed found isOnlyMember
  have hasOwner := (Lineage.ofTree_parent?_iff parsed).mpr isChild
  cases ancestry with
  | top orphan => exact absurd (orphan.symm.trans hasOwner) nofun
  | @step _ parent above hasParent ancestry =>
      obtain rfl : parent = owner := Option.some.inj (hasParent.symm.trans hasOwner)
      exact ⟨parent, ownerNode, above, rfl, ancestry, ownerFound, hasMembers, smaller⟩

/-- What can only be a member covers none of its ancestors. -/
theorem not_covers_ancestor
    (parsed : parse source = .ok tree)
    (found : tree.node? index = some node)
    (isOnlyMember : node.form.isOnlyMember = true)
    (ancestry : Ancestry (ofTree tree).parent? index chain)
    (member : ancestor ∈ chain) :
    ¬tree.Covers index ancestor := by
  intro covers
  obtain ⟨owner, ownerNode, above, rfl, ownerAncestry, ownerFound, -, smaller⟩ :=
    exists_owner_of_ancestry parsed found isOnlyMember ancestry
  have coversOwner : tree.Covers index owner := by
    rcases List.mem_cons.mp member with rfl | member
    · exact covers
    · exact covers.trans (covers_of_ancestry parsed ownerAncestry member)
  obtain ⟨firstLe, lastLe⟩ := (covers_iff found ownerFound).mp coversOwner
  rcases smaller with startsLater | ⟨-, endsEarlier⟩ <;> omega

/-- What can only be a member is an ancestor of the other nodes that it covers, and of no others. -/
theorem mem_ancestors_iff_covers
    (parsed : parse source = .ok tree)
    (found : tree.node? ancestor = some ancestorNode)
    (isOnlyMember : ancestorNode.form.isOnlyMember = true)
    (inside : index.val < tree.nodes.size) :
    ancestor ∈ (ofTree tree).ancestors index ↔ ancestor ≠ index ∧ tree.Covers ancestor index := by
  have ancestorInside := (Array.getElem?_eq_some_iff.mp found).1
  have ancestorAncestry := Lineage.ofTree_ancestry parsed ancestorInside
  constructor
  · intro isAncestor
    refine ⟨?_, covers_of_ancestry parsed (Lineage.ofTree_ancestry parsed inside) isAncestor⟩
    rintro rfl
    exact not_covers_ancestor parsed found isOnlyMember ancestorAncestry isAncestor (.refl found)
  · rintro ⟨distinct, covers⟩
    cases standing_of_ancestry parsed ancestorInside inside ancestorAncestry with
    | same isSame => exact absurd isSame distinct
    | above isAncestor => exact isAncestor
    | below isBelow =>
        exact absurd covers
          (not_covers_ancestor parsed found isOnlyMember ancestorAncestry isBelow)
    | apart apart => exact absurd covers (apart.not_covers parsed)

/-- Of two that can only be members the one around the other one starts before it. -/
theorem startsBefore_of_ancestry
    (parsed : parse source = .ok tree)
    (found : tree.node? index = some node)
    (isOnlyMember : node.form.isOnlyMember = true)
    (ancestorFound : tree.node? ancestor = some ancestorNode)
    (ancestorOnlyMember : ancestorNode.form.isOnlyMember = true)
    (ancestry : Ancestry (ofTree tree).parent? index chain)
    (member : ancestor ∈ chain) :
    tree.StartsBefore ancestor index := by
  obtain ⟨owner, ownerNode, above, rfl, ownerAncestry, ownerFound, hasMembers, smaller⟩ :=
    exists_owner_of_ancestry parsed found isOnlyMember ancestry
  have notOwner : ancestor ≠ owner := by
    rintro rfl
    obtain rfl : ancestorNode = ownerNode := Option.some.inj (ancestorFound.symm.trans ownerFound)
    cases formEq : ancestorNode.form <;>
      simp_all [NodeForm.isOnlyMember, NodeForm.hasMembers]
  have isAbove := (List.mem_cons.mp member).resolve_left notOwner
  have covers := covers_of_ancestry parsed ownerAncestry isAbove
  obtain ⟨firstLe, -⟩ := (covers_iff ancestorFound ownerFound).mp covers
  rcases smaller with startsLater | ⟨rfl, -⟩
  · exact ⟨ancestorNode, node, ancestorFound, found, Nat.lt_of_le_of_lt firstLe startsLater⟩
  · -- The root is the child of no node, so nothing is above it.
    obtain ⟨_, hasParent⟩ : ∃ parent, (ofTree tree).parent? .root = some parent := by
      cases ownerAncestry with
      | top _ => cases isAbove
      | step hasParent _ => exact ⟨_, hasParent⟩
    have isChild := (Lineage.ofTree_parent?_iff parsed).mp hasParent
    exact absurd (parse_child_bounds parsed isChild).1 (by decide)

/-- The outer node has the tag and is another node, whose range contains that of the inner one. -/
def IsAround (tree : SyntaxTree) (tag : NodeTag) (outer inner : NodeIndex) : Prop :=
  tree.tag? outer = some tag ∧ outer ≠ inner ∧ tree.Covers outer inner

/-- A test or a function can only be a member. -/
theorem exists_onlyMember_of_tag?
    {tag : NodeTag}
    (tagged : tree.tag? index = some tag)
    (isScope : tag = .testDecl ∨ tag = .fnDecl) :
    ∃ node, tree.node? index = some node ∧ node.form.isOnlyMember = true := by
  obtain ⟨form, hasForm, tagEq⟩ := Option.map_eq_some_iff.mp tagged
  obtain ⟨node, found, rfl⟩ := Option.map_eq_some_iff.mp hasForm
  refine ⟨node, found, NodeForm.isOnlyMember_iff.mpr ?_⟩
  rw [tagEq]
  rcases isScope with rfl | rfl <;> decide

/-- The tests and functions around a node are its ancestors with these tags. -/
theorem isAround_iff
    {tag : NodeTag}
    (parsed : parse source = .ok tree)
    (inside : index.val < tree.nodes.size)
    (isScope : tag = .testDecl ∨ tag = .fnDecl) :
    tree.IsAround tag ancestor index ↔
      ancestor ∈ (ofTree tree).ancestors index ∧ tree.tag? ancestor = some tag := by
  rw [IsAround, and_comm]
  refine and_congr_left fun tagged => ?_
  obtain ⟨node, found, isOnlyMember⟩ := exists_onlyMember_of_tag? tagged isScope
  exact (mem_ancestors_iff_covers parsed found isOnlyMember inside).symm

end SyntaxTree

namespace Document

variable
  {source path : String}
  {tree : SyntaxTree}
  {index function : NodeIndex}

/-- The scopes that a document finds for a node are those whose ranges are around it. -/
structure ScopesByRange (document : Document) (index : NodeIndex) : Prop where
  inTest_iff :
    document.isInTest index = true ↔ ∃ test, document.tree.IsAround .testDecl test index
  /-- The enclosing function is the one around the node that starts last. -/
  function_iff :
    ∀ function, document.enclosingFn? index = some function ↔
      document.tree.IsAround .fnDecl function index ∧
        ∀ other, document.tree.IsAround .fnDecl other index → other ≠ function →
          document.tree.StartsBefore other function
  no_function_iff :
    document.enclosingFn? index = none ↔
      ∀ function, ¬document.tree.IsAround .fnDecl function index

theorem isInTest_iff
    (parsed : SyntaxTree.parse source = .ok tree)
    (inside : index.val < tree.nodes.size) :
    (ofTree path tree).isInTest index = true ↔
      ∃ test, tree.IsAround .testDecl test index := by
  simp only [SyntaxTree.isAround_iff parsed inside (.inl rfl)]
  simp [isInTest, ancestors, ofTree]

theorem enclosingFn?_eq_none_iff
    (parsed : SyntaxTree.parse source = .ok tree)
    (inside : index.val < tree.nodes.size) :
    (ofTree path tree).enclosingFn? index = none ↔
      ∀ function, ¬tree.IsAround .fnDecl function index := by
  simp only [SyntaxTree.isAround_iff parsed inside (.inr rfl)]
  simp [enclosingFn?, ancestors, ofTree]

/-- The enclosing function is around the node, and all other ones around it start before it. -/
theorem isAround_of_enclosingFn?
    (parsed : SyntaxTree.parse source = .ok tree)
    (inside : index.val < tree.nodes.size)
    (hasFunction : (ofTree path tree).enclosingFn? index = some function) :
    tree.IsAround .fnDecl function index ∧
      ∀ other, tree.IsAround .fnDecl other index → other ≠ function →
        tree.StartsBefore other function := by
  obtain ⟨isFunction, before, after, ancestorsEq, notFunctions⟩ :=
    List.find?_eq_some_iff_append.mp hasFunction
  have ancestorsEq : (Lineage.ofTree tree).ancestors index = before ++ function :: after :=
    ancestorsEq
  have tagged : tree.tag? function = some .fnDecl := beq_iff_eq.mp isFunction
  have ancestry := Lineage.ofTree_ancestry parsed inside
  simp only [SyntaxTree.isAround_iff parsed inside (.inr rfl)]
  rw [ancestorsEq] at ancestry ⊢
  refine ⟨⟨by simp, tagged⟩, fun other ⟨onChain, otherTagged⟩ distinct => ?_⟩
  obtain ⟨node, found, isOnlyMember⟩ := SyntaxTree.exists_onlyMember_of_tag? tagged (.inr rfl)
  obtain ⟨otherNode, otherFound, otherOnlyMember⟩ :=
    SyntaxTree.exists_onlyMember_of_tag? otherTagged (.inr rfl)
  have isAbove : other ∈ after := by
    rcases List.mem_append.mp onChain with isNearer | onChain
    · have := notFunctions other isNearer
      simp_all [ofTree]
    · exact (List.mem_cons.mp onChain).resolve_left distinct
  exact SyntaxTree.startsBefore_of_ancestry parsed found isOnlyMember otherFound otherOnlyMember
    ancestry.of_append isAbove

/-- In the document of a parsed tree, ancestry is lexical containment. -/
theorem ofTree_scopesByRange
    (path : String)
    (parsed : SyntaxTree.parse source = .ok tree)
    (inside : index.val < tree.nodes.size) :
    (ofTree path tree).ScopesByRange index where
  inTest_iff := isInTest_iff parsed inside
  no_function_iff := enclosingFn?_eq_none_iff parsed inside
  function_iff function := by
    refine ⟨isAround_of_enclosingFn? parsed inside, fun ⟨isAround, isLast⟩ => ?_⟩
    cases found : (ofTree path tree).enclosingFn? index with
    | none => exact absurd isAround ((enclosingFn?_eq_none_iff parsed inside).mp found function)
    | some nearest =>
        obtain ⟨nearestAround, nearestLast⟩ := isAround_of_enclosingFn? parsed inside found
        by_contra distinct
        have distinct : nearest ≠ function := fun same => distinct (congrArg some same)
        exact (nearestLast function isAround distinct.symm).asymm
          (isLast nearest nearestAround distinct)

/-- A struct in a function has a function and a test of its own, with a call in each. -/
theorem ofTree_scopesByRange_nested :
    ∃ tree,
      SyntaxTree.parse "fn f() u8 { const S = struct { fn g() u8 { a(); } test { b(); } }; }" =
          .ok tree ∧
        tree.nodes.size = 17 ∧
          (ofTree "a.zig" tree).enclosingFn? ⟨6⟩ = some ⟨8⟩ ∧
            (ofTree "a.zig" tree).ScopesByRange ⟨6⟩ ∧
              (ofTree "a.zig" tree).isInTest ⟨10⟩ = true ∧
                (ofTree "a.zig" tree).enclosingFn? ⟨10⟩ = some ⟨16⟩ ∧
                  (ofTree "a.zig" tree).ScopesByRange ⟨10⟩ := by
  have facts :
      (SyntaxTree.parse
          "fn f() u8 { const S = struct { fn g() u8 { a(); } test { b(); } }; }").toOption.map
          (fun tree =>
            (tree.nodes.size, (ofTree "a.zig" tree).enclosingFn? ⟨6⟩,
              (ofTree "a.zig" tree).isInTest ⟨10⟩, (ofTree "a.zig" tree).enclosingFn? ⟨10⟩)) =
        some (17, some ⟨8⟩, true, some ⟨16⟩) := by
    decide +kernel
  obtain ⟨tree, hasTree, factsEq⟩ := Option.map_eq_some_iff.mp facts
  have parsed := eq_ok_of_toOption hasTree
  simp only [Prod.mk.injEq] at factsEq
  obtain ⟨sizeEq, innerFunction, inTest, outerFunction⟩ := factsEq
  exact ⟨tree, parsed, sizeEq, innerFunction,
    ofTree_scopesByRange "a.zig" parsed (by rw [sizeEq]; decide), inTest, outerFunction,
    ofTree_scopesByRange "a.zig" parsed (by rw [sizeEq]; decide)⟩

end Document

end ZigLint
