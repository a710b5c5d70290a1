import ZigLint.Proofs.Syntax.Names

namespace ZigLint

/-!
# The parents of a parsed tree

`parentTable` gives every node the first node that lists it as a child. In a
parsed tree every node but the root is listed once, so the parent of a node is
the one node among whose children it is. Parents other than the root have larger
indices than their children, which is why every way up ends at the root.
-/

/-- Listing children enters the parent in the free places of these children only. -/
theorem getElem?_foldl_modify
    (table : Array (Option NodeIndex))
    (children : List NodeIndex)
    (parent child : NodeIndex) :
    (children.foldl
        (fun table child => table.modify child.val fun known => known.or (some parent))
        table)[child.val]? =
      table[child.val]?.map fun known =>
        known.or (if child ∈ children then some parent else none) := by
  induction children generalizing table with
  | nil => simp
  | cons first rest inductionHypothesis =>
      rw [List.foldl_cons, inductionHypothesis, Array.getElem?_modify]
      by_cases same : child = first
      · subst same
        by_cases listed : child ∈ rest <;> simp [listed, Function.comp_def]
      · have apart : first.val ≠ child.val :=
          fun sameVal => same (NodeIndex.val_inj.mp sameVal.symm)
        simp [same, apart]

/-- The first node of a list, in the order of the indices, that lists `child`. -/
def firstParent? (entries : List (Node × Nat)) (child : NodeIndex) : Option NodeIndex :=
  (entries.find? fun entry => child ∈ entry.1.childIndices).map fun entry => ⟨entry.2⟩

theorem firstParent?_cons
    (entry : Node × Nat)
    (rest : List (Node × Nat))
    (child : NodeIndex) :
    firstParent? (entry :: rest) child =
      if child ∈ entry.1.childIndices then some ⟨entry.2⟩ else firstParent? rest child := by
  by_cases listed : child ∈ entry.1.childIndices <;> simp [firstParent?, listed]

/-- The parent that the table knows for a node is the first node that lists it. -/
theorem getElem?_parentTable
    (nodes : Array Node)
    (child : NodeIndex) :
    (parentTable nodes)[child.val]? =
      if child.val < nodes.size then some (firstParent? nodes.toList.zipIdx child) else none := by
  have entered :
      ∀ (entries : List (Node × Nat)) (table : Array (Option NodeIndex)),
        (entries.foldl
            (fun table entry =>
              entry.1.childIndices.foldl
                (fun table child =>
                  table.modify child.val fun known => known.or (some ⟨entry.2⟩))
                table)
            table)[child.val]? =
          table[child.val]?.map fun known => known.or (firstParent? entries child) := by
    intro entries
    induction entries with
    | nil => simp [firstParent?]
    | cons entry rest inductionHypothesis =>
        intro table
        rw [List.foldl_cons, inductionHypothesis, getElem?_foldl_modify, Option.map_map,
          firstParent?_cons]
        by_cases listed : child ∈ entry.1.childIndices <;> simp [listed, Function.comp_def]
  have found := entered nodes.toList.zipIdx (Array.replicate nodes.size none)
  by_cases inside : child.val < nodes.size <;>
    simpa [parentTable, Array.getElem?_replicate, inside] using found

namespace SyntaxTree

variable {source : String} {tree : SyntaxTree} {parent child : NodeIndex}

theorem children_eq
    {node : Node}
    (found : tree.node? parent = some node) :
    tree.children parent = node.childIndices := by
  rw [children, found]

theorem mem_children_iff :
    child ∈ tree.children parent ↔
      ∃ node, tree.node? parent = some node ∧ child ∈ node.childIndices := by
  unfold children
  cases tree.node? parent <;> simp

/-- No node is the child of two nodes. -/
theorem parse_parent_unique
    {other : NodeIndex}
    (parsed : parse source = .ok tree)
    (isChild : child ∈ tree.children parent)
    (isOtherChild : child ∈ tree.children other) :
    parent = other := by
  obtain ⟨node, found, listed⟩ := mem_children_iff.mp isChild
  obtain ⟨otherNode, otherFound, otherListed⟩ := mem_children_iff.mp isOtherChild
  rw [node?, ← Array.getElem?_toList] at found otherFound
  have same := getElem?_inj_of_flatMap_nodup (parse_childReferences parsed).1 found otherFound
    listed otherListed
  exact NodeIndex.val_inj.mp same

theorem parse_children_nodup
    (parsed : parse source = .ok tree) :
    (tree.children parent).Nodup := by
  unfold children
  cases found : tree.node? parent with
  | none => exact List.nodup_nil
  | some node =>
      have member : node ∈ tree.nodes.toList := by
        rw [Array.mem_toList_iff]
        exact Array.mem_of_getElem? found
      exact (List.pairwise_flatMap.mp (parse_childReferences parsed).1).1 node member

theorem parse_child_bounds
    (parsed : parse source = .ok tree)
    (isChild : child ∈ tree.children parent) :
    1 ≤ child.val ∧ child.val < tree.nodes.size := by
  obtain ⟨node, found, listed⟩ := mem_children_iff.mp isChild
  rw [← (parse_childReferences parsed).2, childReferences, List.mem_flatMap]
  exact ⟨node, by rw [Array.mem_toList_iff]; exact Array.mem_of_getElem? found, listed⟩

/-- Every node but the root is the child of some node. -/
theorem parse_exists_parent
    (parsed : parse source = .ok tree)
    (notRoot : child ≠ .root)
    (inside : child.val < tree.nodes.size) :
    ∃ parent, child ∈ tree.children parent := by
  have positive : child.val ≠ 0 := fun isZero => notRoot (NodeIndex.val_inj.mp isZero)
  have referred : child ∈ childReferences tree.nodes :=
    ((parse_childReferences parsed).2 child).mpr ⟨by omega, inside⟩
  obtain ⟨node, member, listed⟩ := List.mem_flatMap.mp referred
  obtain ⟨position, lt, found⟩ := List.getElem_of_mem member
  refine ⟨⟨position⟩, mem_children_iff.mpr ⟨node, ?_, listed⟩⟩
  rw [node?, ← Array.getElem?_toList, List.getElem?_eq_getElem lt, found]

theorem parse_parent?_eq
    (parsed : parse source = .ok tree) :
    tree.parent? child =
      if child.val < tree.nodes.size then
        firstParent? tree.nodes.toList.zipIdx child
      else
        none := by
  obtain ⟨_, _, _, -, -, rfl⟩ := parse_eq_ok_iff.mp parsed
  rw [parent?, getElem?_parentTable]
  split <;> rfl

theorem parse_mem_children
    (parsed : parse source = .ok tree)
    (hasParent : tree.parent? child = some parent) :
    child ∈ tree.children parent := by
  rw [parse_parent?_eq parsed] at hasParent
  split at hasParent
  · obtain ⟨entry, first, rfl⟩ := Option.map_eq_some_iff.mp hasParent
    have found := List.mem_zipIdx_iff_getElem?.mp (List.mem_of_find?_eq_some first)
    rw [Array.getElem?_toList] at found
    exact mem_children_iff.mpr ⟨entry.1, found, by simpa using List.find?_some first⟩
  · cases hasParent

/-- The parent of a node in a parsed tree is the node among whose children it is. -/
theorem parse_parent?_iff
    (parsed : parse source = .ok tree) :
    tree.parent? child = some parent ↔ child ∈ tree.children parent := by
  refine ⟨parse_mem_children parsed, fun isChild => ?_⟩
  cases hasParent : tree.parent? child with
  | some other =>
      rw [parse_parent_unique parsed (parse_mem_children parsed hasParent) isChild]
  | none =>
      obtain ⟨node, found, listed⟩ := mem_children_iff.mp isChild
      have member : (node, parent.val) ∈ tree.nodes.toList.zipIdx := by
        rw [List.mem_zipIdx_iff_getElem?, Array.getElem?_toList]
        exact found
      rw [parse_parent?_eq parsed, if_pos (parse_child_bounds parsed isChild).2, firstParent?,
        Option.map_eq_none_iff, List.find?_eq_none] at hasParent
      simpa [listed] using hasParent _ member

/-- A way up leads to the root or to a node with a larger index. -/
theorem parse_parent_cases
    (parsed : parse source = .ok tree)
    (isChild : child ∈ tree.children parent) :
    parent = .root ∨ child.val < parent.val ∧ parent.val < tree.nodes.size := by
  obtain ⟨node, found, listed⟩ := mem_children_iff.mp isChild
  by_cases isRoot : parent = .root
  · exact .inl isRoot
  · exact .inr ⟨parse_child_lt parsed isRoot found listed,
      (Array.getElem?_eq_some_iff.mp found).1⟩

end SyntaxTree

end ZigLint
