import ZigLint.Proofs.Lineage.Search
import ZigLint.Proofs.Syntax.Parents

namespace ZigLint

/-!
# The lineage of a parsed tree

A tree records the parents of its nodes by a scan in the order of the indices; a
lineage finds them breadth first. The two could differ where a node is listed
twice or cannot be reached, and a parsed tree has no such node: both tables hold
the same parents, and every way up ends at the root.
-/

/-- `chain` lists all the parents of a node, nearest first: the last one has no parent. -/
inductive Ancestry (parent? : NodeIndex → Option NodeIndex) :
    (node : NodeIndex) → (chain : List NodeIndex) → Prop where
  | top
      {node : NodeIndex} :
      parent? node = none →
      Ancestry parent? node []
  | step
      {node parent : NodeIndex}
      {chain : List NodeIndex} :
      parent? node = some parent →
      Ancestry parent? parent chain →
      Ancestry parent? node (parent :: chain)

namespace Ancestry

variable {parent? : NodeIndex → Option NodeIndex} {node : NodeIndex}

/-- A chain of parents is complete when each step goes down in rank and the steps suffice. -/
theorem of_rank
    (rank : NodeIndex → Nat)
    {steps : Nat}
    (descends : ∀ child parent, parent? child = some parent → rank parent < rank child)
    (enough : rank node ≤ steps) :
    Ancestry parent? node (parentChain parent? steps node) := by
  induction steps generalizing node with
  | zero =>
      refine .top ?_
      cases hasParent : parent? node with
      | none => rfl
      | some parent =>
          have := descends node parent hasParent
          omega
  | succ steps inductionHypothesis =>
      unfold parentChain
      cases hasParent : parent? node with
      | none => exact .top hasParent
      | some parent =>
          have := descends node parent hasParent
          exact .step hasParent (inductionHypothesis (by omega))

variable {chain : List NodeIndex}

/-- A complete chain stops only where there is no parent. -/
theorem parent?_getLastD
    (ancestry : Ancestry parent? node chain) :
    parent? (chain.getLastD node) = none := by
  induction ancestry with
  | top noParent => exact noParent
  | step _ _ inductionHypothesis => rwa [List.getLastD_cons]

/-- All nodes on a chain are parents, of the node or of a node on the chain. -/
theorem exists_child
    {ancestor : NodeIndex}
    (ancestry : Ancestry parent? node chain)
    (member : ancestor ∈ chain) :
    ∃ child ∈ node :: chain, parent? child = some ancestor := by
  induction ancestry with
  | top _ => simp at member
  | @step node _ _ hasParent _ inductionHypothesis =>
      rcases List.mem_cons.mp member with rfl | member
      · exact ⟨node, List.mem_cons_self, hasParent⟩
      · obtain ⟨child, onChain, isParent⟩ := inductionHypothesis member
        exact ⟨child, List.mem_cons_of_mem _ onChain, isParent⟩

end Ancestry

namespace Lineage

variable
  {source : String}
  {tree : SyntaxTree}
  {order : List NodeIndex}
  {node : NodeIndex}

/-- Every node of a parsed tree is found from the root: its parent is, and lists it. -/
theorem mem_order
    (parsed : SyntaxTree.parse source = .ok tree)
    (explores : Explores tree.children tree.nodes.size (ofTree tree) order [])
    (inside : node.val < tree.nodes.size) :
    node ∈ order := by
  have closed := explores.closed
  rw [List.append_nil] at closed
  -- Parents but the root have larger indices, so the induction runs down from the end of the list.
  induction height : tree.nodes.size - node.val using Nat.strongRecOn generalizing node with
  | _ height inductionHypothesis =>
      have root_mem : NodeIndex.root ∈ order := by
        simpa using (explores.mem_iff .root).mpr (.inl rfl)
      by_cases isRoot : node = .root
      · exact isRoot ▸ root_mem
      · obtain ⟨parent, isChild⟩ := SyntaxTree.parse_exists_parent parsed isRoot inside
        refine closed parent ?_ node isChild inside
        obtain rfl | ⟨larger, parentInside⟩ := SyntaxTree.parse_parent_cases parsed isChild
        · exact root_mem
        · exact inductionHypothesis _ (by omega) parentInside rfl

theorem ofTree_explores
    (parsed : SyntaxTree.parse source = .ok tree) :
    ∃ order, Explores tree.children tree.nodes.size (ofTree tree) order [] := by
  apply ofChildren_explores
  obtain ⟨_, _, _, nodesEq, -⟩ := SyntaxTree.parse_forest parsed
  rw [← Array.length_toList, nodesEq]
  exact Nat.zero_lt_succ _

/-- The breadth-first search gives every child of a parsed tree its parent. -/
theorem ofTree_parent?_iff
    {parent : NodeIndex}
    (parsed : SyntaxTree.parse source = .ok tree) :
    (ofTree tree).parent? node = some parent ↔ node ∈ tree.children parent := by
  obtain ⟨order, explores⟩ := ofTree_explores parsed
  have mem_children_of_parent? :
      ∀ {owner}, (ofTree tree).parent? node = some owner → node ∈ tree.children owner := by
    intro owner hasParent
    exact (explores.children_sublist owner).subset ((explores.parent?_iff owner node).mp hasParent)
  refine ⟨mem_children_of_parent?, fun isChild => ?_⟩
  obtain ⟨positive, inside⟩ := SyntaxTree.parse_child_bounds parsed isChild
  have found : node ∈ order ++ [] := by simpa using mem_order parsed explores inside
  obtain rfl | ⟨owner, hasParent⟩ := (explores.mem_iff node).mp found
  · exact absurd positive (by decide)
  · rw [hasParent,
      SyntaxTree.parse_parent_unique parsed (mem_children_of_parent? hasParent) isChild]

theorem ofTree_children
    (parsed : SyntaxTree.parse source = .ok tree) :
    (ofTree tree).children node = tree.children node := by
  obtain ⟨order, explores⟩ := ofTree_explores parsed
  apply (explores.children_sublist node).eq_of_length_le
  have subset : tree.children node ⊆ (ofTree tree).children node := by
    intro child isChild
    exact (explores.parent?_iff node child).mp ((ofTree_parent?_iff parsed).mpr isChild)
  exact ((SyntaxTree.parse_children_nodup parsed).subperm subset).length_le

theorem ofTree_parent?
    (parsed : SyntaxTree.parse source = .ok tree) :
    (ofTree tree).parent? node = tree.parent? node := by
  apply Option.ext
  intro parent
  rw [ofTree_parent?_iff parsed, SyntaxTree.parse_parent?_iff parsed]

/-- The ancestors of a node are its whole chain of parents. -/
theorem ofTree_ancestry
    (parsed : SyntaxTree.parse source = .ok tree)
    (inside : node.val < tree.nodes.size) :
    Ancestry (ofTree tree).parent? node ((ofTree tree).ancestors node) := by
  obtain ⟨order, explores⟩ := ofTree_explores parsed
  rw [ancestors, explores.size_eq]
  -- The root has rank zero; below it the ranks fall as the indices of the parents grow.
  apply Ancestry.of_rank fun node => if node = .root then 0 else tree.nodes.size - node.val
  · intro child parent hasParent
    have isChild := (ofTree_parent?_iff parsed).mp hasParent
    obtain ⟨positive, childInside⟩ := SyntaxTree.parse_child_bounds parsed isChild
    have notRoot : child ≠ .root := by
      rintro rfl
      exact absurd positive (by decide)
    obtain rfl | ⟨larger, parentInside⟩ := SyntaxTree.parse_parent_cases parsed isChild
    · simp only [if_true, notRoot, if_false]
      omega
    · simp only [notRoot, if_false]
      split <;> omega
  · show (if node = .root then 0 else _) ≤ _
    split <;> omega

/-- Only the root of a parsed tree has no parent. -/
theorem eq_root_of_orphan
    (parsed : SyntaxTree.parse source = .ok tree)
    (inside : node.val < tree.nodes.size)
    (orphan : (ofTree tree).parent? node = none) :
    node = .root := by
  by_contra notRoot
  obtain ⟨parent, isChild⟩ := SyntaxTree.parse_exists_parent parsed notRoot inside
  rw [(ofTree_parent?_iff parsed).mpr isChild] at orphan
  cases orphan

theorem ofTree_ancestors_getLast?
    (parsed : SyntaxTree.parse source = .ok tree)
    (notRoot : node ≠ .root)
    (inside : node.val < tree.nodes.size) :
    ((ofTree tree).ancestors node).getLast? = some .root := by
  have ancestry := ofTree_ancestry parsed inside
  have orphan := ancestry.parent?_getLastD
  cases last : ((ofTree tree).ancestors node).getLast? with
  | none =>
      rw [List.getLastD_eq_getLast?, last] at orphan
      exact (notRoot (eq_root_of_orphan parsed inside orphan)).elim
  | some top =>
      rw [List.getLastD_eq_getLast?, last] at orphan
      obtain ⟨child, -, hasParent⟩ := ancestry.exists_child (List.mem_of_getLast? last)
      by_cases isRoot : top = .root
      · rw [isRoot]
      · have isChild := (ofTree_parent?_iff parsed).mp hasParent
        have topInside :=
          ((SyntaxTree.parse_parent_cases parsed isChild).resolve_left isRoot).2
        exact (isRoot (eq_root_of_orphan parsed topInside orphan)).elim

/--
The scan of a parsed tree and the search from its root find the same parents and
children, and the ancestors of every other node lead up to the root.
-/
theorem ofTree_agrees
    (parsed : SyntaxTree.parse source = .ok tree) :
    (∀ node, (ofTree tree).parent? node = tree.parent? node) ∧
      (∀ node, (ofTree tree).children node = tree.children node) ∧
        ∀ node : NodeIndex, node ≠ .root → node.val < tree.nodes.size →
          Ancestry tree.parent? node ((ofTree tree).ancestors node) ∧
            ((ofTree tree).ancestors node).getLast? = some .root := by
  refine ⟨fun _ => ofTree_parent? parsed, fun _ => ofTree_children parsed, ?_⟩
  intro node notRoot inside
  have sameParents : (ofTree tree).parent? = tree.parent? := funext fun _ => ofTree_parent? parsed
  refine ⟨?_, ofTree_ancestors_getLast? parsed notRoot inside⟩
  rw [← sameParents]
  exact ofTree_ancestry parsed inside

/-- In a struct with a method, the identifier of the return type lies five levels below the root. -/
theorem ofTree_agrees_method :
    ∃ tree,
      SyntaxTree.parse "const A = struct { fn f() u8 { return 1; } };" = .ok tree ∧
        tree.parent? ⟨1⟩ = some ⟨2⟩ ∧
          (ofTree tree).ancestors ⟨1⟩ = [⟨2⟩, ⟨6⟩, ⟨7⟩, ⟨8⟩, .root] ∧
            ((ofTree tree).ancestors ⟨1⟩).getLast? = some .root ∧
              (ofTree tree).parent? ⟨1⟩ = tree.parent? ⟨1⟩ := by
  have facts :
      (SyntaxTree.parse "const A = struct { fn f() u8 { return 1; } };").toOption.map
          (fun tree => (tree.nodes.size, tree.parent? ⟨1⟩, (ofTree tree).ancestors ⟨1⟩)) =
        some (9, some ⟨2⟩, [⟨2⟩, ⟨6⟩, ⟨7⟩, ⟨8⟩, .root]) := by
    decide +kernel
  obtain ⟨tree, hasTree, facts⟩ := Option.map_eq_some_iff.mp facts
  simp only [Prod.mk.injEq] at facts
  obtain ⟨size_eq, parent_eq, ancestors_eq⟩ := facts
  have parsed := eq_ok_of_toOption hasTree
  obtain ⟨sameParents, -, chains⟩ := ofTree_agrees parsed
  refine ⟨tree, parsed, parent_eq, ancestors_eq, ?_, sameParents ⟨1⟩⟩
  exact (chains ⟨1⟩ (by decide) (by rw [size_eq]; decide)).2

end Lineage

end ZigLint
