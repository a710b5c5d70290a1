import ZigLint.Syntax.Tree

namespace ZigLint

/-!
# The flat node list

`Forest` describes how a list of nested nodes stands in a flat node list: the
descendants of a node come right before it, and its later siblings right after
it. `layOutAll` produces such a list, and what a flat list says about its nodes
follows by induction over the forest.
-/

/--
The nested `children` are laid out as the flat list `nodes`, whose first node
has index `base`, and are referred to by `references`.
-/
inductive Forest :
    (base : Nat) →
    (children : List (Role × Ast)) →
    (nodes : List Node) →
    (references : List (Role × NodeIndex)) →
    Prop where
  | nil {base : Nat} : Forest base [] [] []
  | cons
      {base : Nat}
      {role : Role}
      {head : NodeHead}
      {children rest : List (Role × Ast)}
      {own later : List Node}
      {ownReferences laterReferences : List (Role × NodeIndex)} :
      Forest base children own ownReferences →
      Forest (base + own.length + 1) rest later laterReferences →
      Forest base ((role, .node head children) :: rest)
        (own ++ { toNodeHead := head, children := ownReferences } :: later)
        ((role, ⟨base + own.length⟩) :: laterReferences)

/-- A child is laid out before its later siblings, and its own children before it. -/
theorem layOutAll_cons
    (nodes : Array Node)
    (role : Role)
    (head : NodeHead)
    (children rest : List (Role × Ast)) :
    layOutAll nodes ((role, .node head children) :: rest) =
      let (own, references) := layOutAll nodes children
      let (all, later) := layOutAll (own.push { toNodeHead := head, children := references }) rest
      (all, (role, ⟨own.size⟩) :: later) :=
  rfl

/-- Laying out children appends a forest of them to the node list. -/
theorem layOutAll_forest
    (nodes : Array Node)
    (children : List (Role × Ast)) :
    ∃ added,
      (layOutAll nodes children).1.toList = nodes.toList ++ added ∧
        Forest nodes.size children added (layOutAll nodes children).2 := by
  match children with
  | [] => exact ⟨[], (List.append_nil _).symm, .nil⟩
  | (role, .node head grandchildren) :: rest =>
      obtain ⟨own, ownEq, ownForest⟩ := layOutAll_forest nodes grandchildren
      let top : Node :=
        { toNodeHead := head, children := (layOutAll nodes grandchildren).2 }
      have ownSize : (layOutAll nodes grandchildren).1.size = nodes.size + own.length := by
        rw [← Array.length_toList, ownEq, List.length_append, Array.length_toList]
      obtain ⟨later, laterEq, laterForest⟩ :=
        layOutAll_forest ((layOutAll nodes grandchildren).1.push top) rest
      rw [Array.size_push, ownSize] at laterForest
      rw [layOutAll_cons]
      refine ⟨own ++ top :: later, ?_, ?_⟩
      · refine laterEq.trans ?_
        rw [Array.toList_push, ownEq, List.append_assoc, List.append_assoc, List.singleton_append]
      · simp only [ownSize]
        exact .cons ownForest laterForest
  termination_by sizeOf children

namespace Forest

variable
  {base : Nat}
  {children : List (Role × Ast)}
  {nodes : List Node}
  {references : List (Role × NodeIndex)}

/-- Every node of a forest is referred to exactly once, from outside or by its parent. -/
theorem perm_indices
    (forest : Forest base children nodes references) :
    (references.map Prod.snd ++ nodes.flatMap Node.childIndices).Perm
      ((List.range' base nodes.length).map NodeIndex.mk) := by
  induction forest with
  | nil => exact .refl _
  | @cons base role head _ _ own later ownReferences laterReferences _ _ ownPerm laterPerm =>
      have rangeEq :
          List.range' base (own.length + (later.length + 1)) =
            List.range' base own.length ++
              (base + own.length) :: List.range' (base + own.length + 1) later.length := by
        rw [← List.range'_append_1, List.range'_succ]
      rw [List.length_append, List.length_cons, rangeEq]
      rw [List.perm_iff_count] at ownPerm laterPerm ⊢
      intro index
      have ownCount := ownPerm index
      have laterCount := laterPerm index
      simp only [List.map_cons, List.map_append, List.flatMap_append, List.flatMap_cons,
        List.cons_append, List.count_cons, List.count_append, Node.childIndices]
        at ownCount laterCount ⊢
      omega

/-- What refers into a forest from outside lies within its range of indices. -/
theorem reference_bounds
    {reference : Role × NodeIndex}
    (forest : Forest base children nodes references)
    (member : reference ∈ references) :
    base ≤ reference.2.val ∧ reference.2.val < base + nodes.length := by
  have inRange : reference.2 ∈ (List.range' base nodes.length).map NodeIndex.mk :=
    forest.perm_indices.subset (List.mem_append_left _ (List.mem_map_of_mem member))
  obtain ⟨index, bounds, indexEq⟩ := List.mem_map.mp inRange
  rw [← indexEq]
  exact List.mem_range'_1.mp bounds

theorem child_lt
    {position : Nat}
    {node : Node}
    {child : NodeIndex}
    (forest : Forest base children nodes references)
    (found : nodes[position]? = some node)
    (isChild : child ∈ node.childIndices) :
    child.val < base + position := by
  induction forest generalizing position with
  | nil => simp at found
  | @cons base role head _ _ own later _ _ ownForest _ ownBounds laterBounds =>
      rcases Nat.lt_trichotomy position own.length with inOwn | atTop | inLater
      · rw [List.getElem?_append_left inOwn] at found
        exact ownBounds found
      · subst atTop
        rw [List.getElem?_append_right (Nat.le_refl _), Nat.sub_self] at found
        obtain rfl : _ = node := Option.some.inj found
        obtain ⟨reference, member, referenceEq⟩ := List.mem_map.mp isChild
        exact referenceEq ▸ (ownForest.reference_bounds member).2
      · obtain ⟨offset, rfl⟩ := Nat.exists_eq_add_of_lt inLater
        rw [List.getElem?_append_right (by omega)] at found
        have offsetEq : own.length + offset + 1 - own.length = offset + 1 := by omega
        rw [offsetEq, List.getElem?_cons_succ] at found
        have := laterBounds found
        omega

end Forest

/-- The flat nodes stand in the whole node list from index `base` on. -/
def StandsAt (whole : List Node) (base : Nat) (nodes : List Node) : Prop :=
  ∀ position node, nodes[position]? = some node → whole[base + position]? = some node

theorem standsAt_cons
    (root : Node)
    (nodes : List Node) :
    StandsAt (root :: nodes) 1 nodes := by
  intro position node found
  rw [Nat.add_comm, List.getElem?_cons_succ]
  exact found

namespace StandsAt

variable {whole own later : List Node} {base : Nat} {node : Node}

theorem left
    (stands : StandsAt whole base (own ++ node :: later)) :
    StandsAt whole base own := by
  intro position node' found
  obtain ⟨inside, -⟩ := List.getElem?_eq_some_iff.mp found
  exact stands position node' (by rw [List.getElem?_append_left inside]; exact found)

theorem middle
    (stands : StandsAt whole base (own ++ node :: later)) :
    whole[base + own.length]? = some node :=
  stands own.length node (by simp)

theorem right
    (stands : StandsAt whole base (own ++ node :: later)) :
    StandsAt whole (base + own.length + 1) later := by
  intro position node' found
  have shifted : (own ++ node :: later)[own.length + (position + 1)]? = some node' := by
    rw [List.getElem?_append_right (Nat.le_add_right _ _), Nat.add_sub_cancel_left]
    exact found
  have found := stands _ node' shifted
  rwa [← Nat.add_assoc, ← Nat.add_assoc, Nat.add_right_comm] at found

end StandsAt

/-- The heads of the nodes that `indices` refer to in a node list. -/
def headsAt (whole : List Node) (indices : List NodeIndex) : List (Option NodeHead) :=
  indices.map fun index => whole[index.val]?.map Node.toNodeHead

/-- A flat node stands for a nested one when it has its head and refers to its children. -/
structure Node.Depicts
    (whole : List Node)
    (node : Node)
    (ast : Ast) :
    Prop where
  head_eq : node.toNodeHead = ast.head
  roles_eq : node.children.map Prod.fst = ast.children.map Prod.fst
  heads_eq : headsAt whole node.childIndices = ast.children.map fun child => some child.2.head

namespace Forest

variable
  {base : Nat}
  {children : List (Role × Ast)}
  {nodes whole : List Node}
  {references : List (Role × NodeIndex)}

/-- What refers into a forest from outside finds the heads of its topmost nodes. -/
theorem headsAt_references
    (forest : Forest base children nodes references)
    (stands : StandsAt whole base nodes) :
    headsAt whole (references.map Prod.snd) = children.map fun child => some child.2.head := by
  induction forest with
  | nil => rfl
  | cons _ _ _ laterHeads =>
      have topHead := congrArg (Option.map Node.toNodeHead) stands.middle
      have laterHeads := laterHeads stands.right
      exact List.cons_eq_cons.mpr ⟨topHead, laterHeads⟩

/-- What refers into a forest from outside has the roles of its topmost nodes. -/
theorem roles_references
    (forest : Forest base children nodes references) :
    references.map Prod.fst = children.map Prod.fst := by
  induction forest with
  | nil => rfl
  | cons _ _ _ laterRoles => exact congrArg _ laterRoles

/--
Every node of a forest stands for a nested node, which has what the topmost nodes have
and hand down to their children.
-/
theorem depicts
    {good : Ast → Prop}
    {node : Node}
    (forest : Forest base children nodes references)
    (stands : StandsAt whole base nodes)
    (handsDown : ∀ ast, good ast → ∀ child ∈ ast.children, good child.2)
    (areGood : ∀ child ∈ children, good child.2)
    (member : node ∈ nodes) :
    ∃ ast, good ast ∧ node.Depicts whole ast := by
  induction forest with
  | nil => simp at member
  | @cons _ _ head grandchildren _ _ _ _ _ ownForest _ inOwn inLater =>
      have topGood : good (.node head grandchildren) := areGood _ List.mem_cons_self
      rcases List.mem_append.mp member with member | member
      · exact inOwn stands.left (handsDown _ topGood) member
      · rcases List.mem_cons.mp member with rfl | member
        · exact ⟨_, topGood, rfl, ownForest.roles_references,
            ownForest.headsAt_references stands.left⟩
        · exact inLater stands.right
            (fun child isLater => areGood child (List.mem_cons_of_mem _ isLater)) member

end Forest

/-- The node list of a file is its root, which refers to the members, before their forest. -/
theorem nodesOfMembers_forest
    (tokenCount : Nat)
    (members : List Ast) :
    ∃ nodes references,
      (nodesOfMembers tokenCount members).toList =
          { toNodeHead := .ofRoot tokenCount, children := references } :: nodes ∧
        Forest 1 (Parser.childrenIn .member members) nodes references := by
  let root : Node := { toNodeHead := .ofRoot tokenCount, children := [] }
  obtain ⟨nodes, nodesEq, forest⟩ :=
    layOutAll_forest #[root] (Parser.childrenIn .member members)
  refine ⟨nodes, (layOutAll #[root] (Parser.childrenIn .member members)).2, ?_, forest⟩
  simp only [nodesOfMembers, Array.set!_eq_setIfInBounds, Array.toList_setIfInBounds]
  rw [nodesEq]
  rfl

theorem eq_ok_of_toOption
    {computation : Except ε α}
    {value : α}
    (hasValue : computation.toOption = some value) :
    computation = .ok value := by
  cases computation with
  | error fault => cases hasValue
  | ok result => exact congrArg Except.ok (Option.some.inj hasValue)

namespace SyntaxTree

/-- A source is parsed when it can be cut into tokens and these are the members of a file. -/
theorem parse_eq_ok_iff
    {source : String}
    {tree : SyntaxTree} :
    parse source = .ok tree ↔
      ∃ tokens members stop,
        Token.scan source = .ok tokens ∧
          Parser.file (tokens.toArray.map Token.kind) 0 = .ok (members, stop) ∧
            tree =
              {
                source
                tokens := tokens.toArray
                nodes := nodesOfMembers tokens.toArray.size members
                parents := parentTable (nodesOfMembers tokens.toArray.size members)
              } := by
  unfold parse parseTokens
  constructor
  · intro parsed
    split at parsed
    · cases parsed
    · rename_i tokens scanned
      cases read : Parser.file (tokens.toArray.map Token.kind) 0 with
      | error mismatch =>
          simp only [read, bind, Except.bind] at parsed
          cases parsed
      | ok outcome =>
          simp only [read, bind, Except.bind] at parsed
          cases parsed
          exact ⟨tokens, outcome.1, outcome.2, scanned, read, rfl⟩
  · rintro ⟨tokens, members, stop, scanned, read, rfl⟩
    rw [scanned]
    simp only [read]
    rfl

/-- The nodes depend on the kinds of the tokens only. -/
theorem parse_of_kinds_eq
    {source other : String}
    {tree : SyntaxTree}
    {tokens : List Token}
    (parsed : parse source = .ok tree)
    (scanned : Token.scan other = .ok tokens)
    (kindsEq : tokens.map Token.kind = tree.tokens.toList.map Token.kind) :
    parse other = .ok { tree with source := other, tokens := tokens.toArray } := by
  obtain ⟨ownTokens, members, stop, -, read, rfl⟩ := parse_eq_ok_iff.mp parsed
  have sameKinds : tokens.toArray.map Token.kind = ownTokens.toArray.map Token.kind := by
    rw [List.map_toArray, List.map_toArray, kindsEq]
  have sameSize : tokens.toArray.size = ownTokens.toArray.size := by
    have := congrArg Array.size sameKinds
    rwa [Array.size_map, Array.size_map] at this
  rw [← sameKinds] at read
  refine parse_eq_ok_iff.mpr ⟨tokens, members, stop, scanned, read, ?_⟩
  rw [sameSize]

end SyntaxTree

end ZigLint
