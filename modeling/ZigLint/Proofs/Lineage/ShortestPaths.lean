import Mathlib.Order.Lattice.Nat
import ZigLint.Proofs.Lineage.Agreement

namespace ZigLint.Lineage

/-!
# Shortest paths

Whatever child lists a lineage is built from, it is a tree of shortest paths from
the root. A generation of the search holds the nodes at one distance, so a child
is claimed from a node that is one edge nearer, and the ancestors of a node are
as many as there are edges on a shortest path to it.
-/

/-- There is a path of `length` edges from the root to the node; edges out of range do not count. -/
inductive RootPath
    (childrenOf : NodeIndex → List NodeIndex)
    (count : Nat) :
    (length : Nat) → (node : NodeIndex) → Prop where
  | root : RootPath childrenOf count 0 .root
  | edge
      {length : Nat}
      {parent child : NodeIndex} :
      RootPath childrenOf count length parent →
      child ∈ childrenOf parent →
      child.val < count →
      RootPath childrenOf count (length + 1) child

/-- The least number of edges from the root to the node. -/
def IsDistance
    (childrenOf : NodeIndex → List NodeIndex)
    (count : Nat)
    (node : NodeIndex)
    (distance : Nat) :
    Prop :=
  IsLeast {length | RootPath childrenOf count length node} distance

variable {childrenOf : NodeIndex → List NodeIndex} {count : Nat} {lineage : Lineage}

theorem isDistance_root : IsDistance childrenOf count .root 0 :=
  ⟨.root, fun _ _ => Nat.zero_le _⟩

theorem RootPath.exists_isDistance
    {length : Nat}
    {node : NodeIndex}
    (path : RootPath childrenOf count length node) :
    ∃ distance, IsDistance childrenOf count node distance := by
  classical
  have reached : ∃ length, RootPath childrenOf count length node := ⟨length, path⟩
  exact ⟨Nat.find reached, Nat.find_spec reached, fun other => Nat.find_min' reached⟩

/-- A parent that has been given is never taken away. -/
theorem parent?_claimAll_of_some
    {child parent : NodeIndex}
    (generation : List NodeIndex)
    (hasParent : lineage.parent? child = some parent) :
    (lineage.claimAll childrenOf generation).1.parent? child = some parent := by
  induction generation generalizing lineage with
  | nil => exact hasParent
  | cons node rest inductionHypothesis =>
      have adopts := claim_adopts lineage node (childrenOf node)
      have stillHasParent :
          (lineage.claim node (childrenOf node)).1.parent? child = some parent := by
        rw [adopts.parent?_eq, if_neg, hasParent]
        intro isAdopted
        have free := isFree_iff.mp ((adopts.mem_iff child).mp isAdopted).2
        rw [hasParent] at free
        cases free.2.2
      exact inductionHypothesis stillHasParent

/-- A parent has been settled, and its child is one of those that it lists. -/
theorem Explores.edge_of_parent
    {settled generation : List NodeIndex}
    {child parent : NodeIndex}
    (explores : Explores childrenOf count lineage settled generation)
    (hasParent : lineage.parent? child = some parent) :
    child ∈ childrenOf parent ∧ child.val < count ∧ parent ∈ settled := by
  have isChild := (explores.parent?_iff parent child).mp hasParent
  refine ⟨(explores.children_sublist parent).subset isChild, ?_, ?_⟩
  · exact explores.inside child ((explores.mem_iff child).mpr (.inr ⟨parent, hasParent⟩))
  · by_contra unsettled
    rw [explores.children_eq_nil parent unsettled] at isChild
    cases isChild

/--
The search between two generations: those behind it are nearer than `depth`, and
those in front of it are at that distance.
-/
structure Layered
    (childrenOf : NodeIndex → List NodeIndex)
    (count : Nat)
    (lineage : Lineage)
    (settled generation : List NodeIndex)
    (depth : Nat) :
    Prop where
  depth_le : depth ≤ settled.length
  settled_iff :
    ∀ node, node ∈ settled ↔ ∃ length < depth, RootPath childrenOf count length node
  found_iff :
    ∀ node,
      node ∈ settled ++ generation ↔ ∃ length ≤ depth, RootPath childrenOf count length node
  /-- A parent is one edge nearer to the root than its children. -/
  distance_parent :
    ∀ child parent, lineage.parent? child = some parent →
      ∃ distance,
        IsDistance childrenOf count parent distance ∧
          IsDistance childrenOf count child (distance + 1)

namespace Layered

variable {settled generation : List NodeIndex} {depth : Nat}

/-- Before the first round the root is at distance zero, and nothing is behind it. -/
theorem bare : Layered childrenOf count (bare count) [] [.root] 0 where
  depth_le := Nat.le_refl 0
  settled_iff := by simp
  found_iff := by
    intro node
    simp only [List.nil_append, List.mem_singleton, Nat.le_zero]
    constructor
    · rintro rfl
      exact ⟨0, rfl, .root⟩
    · rintro ⟨_, rfl, path⟩
      cases path
      rfl
  distance_parent := by
    simp [Lineage.bare, parent?, Array.getElem?_replicate, Option.join_eq_some_iff]

section Round

variable {after : Lineage} {claimed : List NodeIndex} {child parent : NodeIndex}

/-- With the nodes that a generation claims, those one edge further away are found. -/
theorem found_succ
    (explores : Explores childrenOf count lineage settled generation)
    (layered : Layered childrenOf count lineage settled generation depth)
    (next : Explores childrenOf count after (settled ++ generation) claimed) :
    child ∈ settled ++ generation ++ claimed ↔
      ∃ length ≤ depth + 1, RootPath childrenOf count length child := by
  have root_found : NodeIndex.root ∈ settled ++ generation :=
    (explores.mem_iff .root).mpr (.inl rfl)
  constructor
  · intro isFound
    rcases (next.mem_iff child).mp isFound with rfl | ⟨parent, hasParent⟩
    · exact ⟨0, Nat.zero_le _, .root⟩
    · obtain ⟨isChild, inside, parentFound⟩ := next.edge_of_parent hasParent
      obtain ⟨length, le, path⟩ := (layered.found_iff parent).mp parentFound
      exact ⟨length + 1, Nat.succ_le_succ le, path.edge isChild inside⟩
  · rintro ⟨length, le, path⟩
    cases path with
    | root => exact List.mem_append_left _ root_found
    | @edge length parent _ path isChild inside =>
        have parentFound : parent ∈ settled ++ generation :=
          (layered.found_iff parent).mpr ⟨length, Nat.le_of_succ_le_succ le, path⟩
        exact next.closed parent parentFound child isChild inside

/-- A node that was not found before is one edge further away than the parent it gets. -/
theorem distance_of_claimed
    (layered : Layered childrenOf count lineage settled generation depth)
    (next : Explores childrenOf count after (settled ++ generation) claimed)
    (isNew : child ∉ settled ++ generation)
    (hasParent : after.parent? child = some parent) :
    ∃ distance,
      IsDistance childrenOf count parent distance ∧
        IsDistance childrenOf count child (distance + 1) := by
  obtain ⟨isChild, inside, parentFound⟩ := next.edge_of_parent hasParent
  -- No path to the child is as short as `depth`, so its parent is not nearer than that.
  have childFar : ∀ length, RootPath childrenOf count length child → depth < length := by
    intro length path
    by_contra near
    exact isNew ((layered.found_iff child).mpr ⟨length, Nat.le_of_not_lt near, path⟩)
  have parentFar : ∀ length, RootPath childrenOf count length parent → depth ≤ length :=
    fun length path => Nat.le_of_lt_succ (childFar _ (path.edge isChild inside))
  obtain ⟨length, le, path⟩ := (layered.found_iff parent).mp parentFound
  obtain rfl : length = depth := Nat.le_antisymm le (parentFar length path)
  exact ⟨length, ⟨path, parentFar⟩, ⟨path.edge isChild inside, childFar⟩⟩

end Round

/-- A generation that is not empty claims the nodes that are one edge further away. -/
theorem claimAll
    {node : NodeIndex}
    (explores : Explores childrenOf count lineage settled (node :: generation))
    (layered : Layered childrenOf count lineage settled (node :: generation) depth) :
    Layered childrenOf count (lineage.claimAll childrenOf (node :: generation)).1
      (settled ++ node :: generation) (lineage.claimAll childrenOf (node :: generation)).2
      (depth + 1) := by
  have next :
      Explores childrenOf count (lineage.claimAll childrenOf (node :: generation)).1
        (settled ++ node :: generation)
        (lineage.claimAll childrenOf (node :: generation)).2 := by
    have goesOn := explores
    rw [← List.append_nil (node :: generation)] at goesOn
    exact goesOn.claimAll
  refine ⟨?_, ?_, fun child => layered.found_succ explores next, ?_⟩
  · have := layered.depth_le
    simp only [List.length_append, List.length_cons]
    omega
  · intro child
    rw [layered.found_iff]
    simp only [Nat.lt_succ_iff]
  · intro child parent hasParent
    by_cases isOld : child ∈ settled ++ node :: generation
    · obtain rfl | ⟨oldParent, hadParent⟩ := (explores.mem_iff child).mp isOld
      · rw [next.root_free] at hasParent
        cases hasParent
      · rw [parent?_claimAll_of_some _ hadParent] at hasParent
        exact layered.distance_parent child parent (hadParent.trans hasParent)
    · exact layered.distance_of_claimed next isOld hasParent

end Layered

/-- The search from the root goes from one distance to the next until nobody waits. -/
theorem ofChildren_layered
    (childrenOf : NodeIndex → List NodeIndex)
    (positive : 0 < count) :
    ∃ order depth,
      Explores childrenOf count (ofChildren count childrenOf) order [] ∧
        Layered childrenOf count (ofChildren count childrenOf) order [] depth ∧
          ∀ extra,
            search childrenOf (count + extra) (bare count) [.root] =
              ofChildren count childrenOf := by
  rw [ofChildren, if_neg (by omega)]
  have enough : [NodeIndex.root] = [] ∨ count < count + ([] ++ [NodeIndex.root]).length :=
    .inr (by simp)
  obtain ⟨order, explores, ⟨depth, layered⟩, same⟩ :=
    (Explores.bare positive).search
      (fun lineage settled generation =>
        ∃ depth, Layered childrenOf count lineage settled generation depth)
      (by
        rintro _ _ _ _ explores ⟨depth, layered⟩
        exact ⟨depth + 1, layered.claimAll explores⟩)
      ⟨0, .bare⟩ enough
  exact ⟨order, depth, explores, layered, same⟩

section Paths

variable {order : List NodeIndex} {depth : Nat} {node : NodeIndex}

/-- The search settles exactly the nodes that a path leads to. -/
theorem Explores.mem_order_iff
    (explores : Explores childrenOf count lineage order [])
    (layered : Layered childrenOf count lineage order [] depth) :
    node ∈ order ↔ ∃ length, RootPath childrenOf count length node := by
  constructor
  · intro isFound
    obtain ⟨length, -, path⟩ := (layered.settled_iff node).mp isFound
    exact ⟨length, path⟩
  · rintro ⟨length, path⟩
    induction path with
    | root => simpa using (explores.mem_iff .root).mpr (.inl rfl)
    | @edge _ parent child _ isChild inside parentFound =>
        simpa using explores.closed parent parentFound child isChild inside

/-- A node that a path leads to is the root or has a parent. -/
theorem Explores.eq_root_of_orphan
    (explores : Explores childrenOf count lineage order [])
    (layered : Layered childrenOf count lineage order [] depth)
    {distance : Nat}
    (isDistance : IsDistance childrenOf count node distance)
    (orphan : lineage.parent? node = none) :
    node = .root := by
  have isFound : node ∈ order := (explores.mem_order_iff layered).mpr ⟨distance, isDistance.1⟩
  obtain isRoot | ⟨parent, hasParent⟩ := (explores.mem_iff node).mp (by simpa using isFound)
  · exact isRoot
  · rw [orphan] at hasParent
    cases hasParent

/-- No shortest path has more edges than there are nodes. -/
theorem Explores.distance_le
    (explores : Explores childrenOf count lineage order [])
    (layered : Layered childrenOf count lineage order [] depth)
    {distance : Nat}
    (isDistance : IsDistance childrenOf count node distance) :
    distance ≤ count := by
  have isFound := (explores.mem_order_iff layered).mpr ⟨distance, isDistance.1⟩
  obtain ⟨length, lt, path⟩ := (layered.settled_iff node).mp isFound
  have distanceLe : distance ≤ length := isDistance.2 path
  have depthLe := layered.depth_le
  have orderLe := explores.length_le
  rw [List.append_nil] at orderLe
  omega

/-- The ancestors of a node that a path leads to are its whole chain of parents. -/
theorem Explores.ancestry
    (explores : Explores childrenOf count lineage order [])
    (layered : Layered childrenOf count lineage order [] depth)
    {distance : Nat}
    (isDistance : IsDistance childrenOf count node distance) :
    Ancestry lineage.parent? node (lineage.ancestors node) := by
  have distanceEq :
      ∀ {node distance}, IsDistance childrenOf count node distance →
        sInf {length | RootPath childrenOf count length node} = distance :=
    fun isDistance => isDistance.csInf_eq
  rw [ancestors, explores.size_eq]
  apply Ancestry.of_rank fun node => sInf {length | RootPath childrenOf count length node}
  · intro child parent hasParent
    obtain ⟨nearer, parentDistance, childDistance⟩ :=
      layered.distance_parent child parent hasParent
    rw [distanceEq parentDistance, distanceEq childDistance]
    exact Nat.lt_succ_self nearer
  · rw [distanceEq isDistance]
    exact explores.distance_le layered isDistance

end Paths

section Chains

variable {order : List NodeIndex} {depth : Nat} {node : NodeIndex} {chain : List NodeIndex}

/-- A chain of parents has one node for each edge of a shortest path. -/
theorem Explores.chain_length
    (explores : Explores childrenOf count lineage order [])
    (layered : Layered childrenOf count lineage order [] depth)
    (ancestry : Ancestry lineage.parent? node chain)
    {distance : Nat}
    (isDistance : IsDistance childrenOf count node distance) :
    chain.length = distance := by
  induction ancestry generalizing distance with
  | top orphan =>
      obtain rfl := explores.eq_root_of_orphan layered isDistance orphan
      exact isDistance_root.unique isDistance
  | @step node parent chain hasParent _ inductionHypothesis =>
      obtain ⟨nearer, parentDistance, nodeDistance⟩ := layered.distance_parent _ _ hasParent
      rw [List.length_cons, inductionHypothesis parentDistance]
      exact nodeDistance.unique isDistance

/-- All nodes on a chain of parents are nearer to the root than the node where it starts. -/
theorem Layered.chain_nearer
    (layered : Layered childrenOf count lineage order [] depth)
    (ancestry : Ancestry lineage.parent? node chain)
    {distance : Nat}
    (isDistance : IsDistance childrenOf count node distance)
    {ancestor : NodeIndex}
    (member : ancestor ∈ chain) :
    ∃ nearer < distance, IsDistance childrenOf count ancestor nearer := by
  induction ancestry generalizing distance with
  | top _ => cases member
  | @step node parent chain hasParent _ inductionHypothesis =>
      obtain ⟨nearer, parentDistance, nodeDistance⟩ := layered.distance_parent _ _ hasParent
      obtain rfl : nearer + 1 = distance := nodeDistance.unique isDistance
      rcases List.mem_cons.mp member with rfl | member
      · exact ⟨nearer, Nat.lt_succ_self nearer, parentDistance⟩
      · obtain ⟨further, lt, ancestorDistance⟩ := inductionHypothesis parentDistance member
        exact ⟨further, Nat.lt_succ_of_lt lt, ancestorDistance⟩

theorem Layered.chain_nodup
    (layered : Layered childrenOf count lineage order [] depth)
    (ancestry : Ancestry lineage.parent? node chain)
    {distance : Nat}
    (isDistance : IsDistance childrenOf count node distance) :
    (node :: chain).Nodup := by
  induction ancestry generalizing distance with
  | @top node _ => exact List.nodup_singleton node
  | @step node parent chain hasParent above inductionHypothesis =>
      obtain ⟨_, parentDistance, -⟩ := layered.distance_parent _ _ hasParent
      refine List.nodup_cons.mpr ⟨fun isAbove => ?_, inductionHypothesis parentDistance⟩
      obtain ⟨nearer, lt, same⟩ :=
        layered.chain_nearer (.step hasParent above) isDistance isAbove
      exact absurd (same.unique isDistance) (Nat.ne_of_lt lt)

/-- A chain of parents ends at the root. -/
theorem Explores.chain_getLast?
    (explores : Explores childrenOf count lineage order [])
    (layered : Layered childrenOf count lineage order [] depth)
    (ancestry : Ancestry lineage.parent? node chain)
    {distance : Nat}
    (isDistance : IsDistance childrenOf count node distance)
    (notRoot : node ≠ .root) :
    chain.getLast? = some .root := by
  have orphan := ancestry.parent?_getLastD
  rw [List.getLastD_eq_getLast?] at orphan
  cases last : chain.getLast? with
  | none =>
      rw [last] at orphan
      exact (notRoot (explores.eq_root_of_orphan layered isDistance orphan)).elim
  | some top =>
      rw [last] at orphan
      obtain ⟨_, -, topDistance⟩ :=
        layered.chain_nearer ancestry isDistance (List.mem_of_getLast? last)
      rw [explores.eq_root_of_orphan layered topDistance orphan]

end Chains

/-- The lineage holds a shortest path from the root to every node that a path leads to. -/
structure IsShortestPathTree
    (childrenOf : NodeIndex → List NodeIndex)
    (count : Nat)
    (lineage : Lineage) :
    Prop where
  parent?_root : lineage.parent? .root = none
  children_sublist : ∀ parent, (lineage.children parent).Sublist (childrenOf parent)
  /-- A node is listed once by its parent, and by no other node. -/
  count_children :
    ∀ parent child,
      (lineage.children parent).count child =
        if lineage.parent? child = some parent then 1 else 0
  hasParent_iff :
    ∀ node, node ≠ .root →
      ((∃ parent, lineage.parent? node = some parent) ↔
        ∃ length, RootPath childrenOf count length node)
  ancestors_shortest :
    ∀ node length, node ≠ .root → RootPath childrenOf count length node →
      Ancestry lineage.parent? node (lineage.ancestors node) ∧
        (node :: lineage.ancestors node).Nodup ∧
          (lineage.ancestors node).getLast? = some .root ∧
            IsDistance childrenOf count node (lineage.ancestors node).length
  unreachable :
    ∀ node, (¬ ∃ length, RootPath childrenOf count length node) →
      lineage.parent? node = none ∧ lineage.children node = []

/-- A search that leaves nobody waiting has found the shortest paths. -/
theorem Explores.isShortestPathTree
    {order : List NodeIndex}
    {depth : Nat}
    (explores : Explores childrenOf count lineage order [])
    (layered : Layered childrenOf count lineage order [] depth) :
    IsShortestPathTree childrenOf count lineage where
  parent?_root := explores.root_free
  children_sublist := explores.children_sublist
  count_children := by
    intro parent child
    rw [(explores.children_nodup parent).count]
    simp only [explores.parent?_iff]
  hasParent_iff := by
    intro node notRoot
    rw [← explores.mem_order_iff layered, ← List.append_nil order, explores.mem_iff]
    simp [notRoot]
  ancestors_shortest := by
    intro node length notRoot path
    obtain ⟨distance, isDistance⟩ := path.exists_isDistance
    have ancestry := explores.ancestry layered isDistance
    refine ⟨ancestry, layered.chain_nodup ancestry isDistance,
      explores.chain_getLast? layered ancestry isDistance notRoot, ?_⟩
    rwa [explores.chain_length layered ancestry isDistance]
  unreachable := by
    intro node unreached
    rw [← explores.mem_order_iff layered] at unreached
    refine ⟨?_, explores.children_eq_nil node unreached⟩
    rw [← List.append_nil order, explores.mem_iff, not_or, not_exists] at unreached
    exact Option.eq_none_iff_forall_ne_some.mpr unreached.2

/-- Without nodes there is nothing to claim. -/
theorem claimAll_bare_zero
    (generation : List NodeIndex) :
    (bare 0).claimAll childrenOf generation = (bare 0, []) := by
  have adopt_bare :
      ∀ parent candidates, (bare 0).adopt parent candidates = (bare 0, []) := by
    intro parent candidates
    induction candidates with
    | nil => rfl
    | cons child rest inductionHypothesis => exact inductionHypothesis
  induction generation with
  | nil => rfl
  | cons node rest inductionHypothesis =>
      have claim_bare : (bare 0).claim node (childrenOf node) = (bare 0, []) := by
        simp only [claim, adopt_bare]
        simp [bare]
      simp [claimAll, claim_bare, inductionHypothesis]

theorem search_bare_zero
    (rounds : Nat) :
    search childrenOf rounds (bare 0) [.root] = bare 0 := by
  cases rounds with
  | zero => rfl
  | succ rounds =>
      rw [search, claimAll_bare_zero]
      · cases rounds <;> rfl
      · nofun

theorem bare_zero_isShortestPathTree :
    IsShortestPathTree childrenOf 0 (bare 0) where
  parent?_root := rfl
  children_sublist := fun parent => List.nil_sublist (childrenOf parent)
  count_children := fun _ _ => rfl
  hasParent_iff := by
    intro node notRoot
    constructor
    · rintro ⟨parent, hasParent⟩
      cases hasParent
    · rintro ⟨length, path⟩
      cases path with
      | root => exact (notRoot rfl).elim
      | edge _ _ inside => exact absurd inside (Nat.not_lt_zero _)
  ancestors_shortest := by
    intro node length notRoot path
    cases path with
    | root => exact (notRoot rfl).elim
    | edge _ _ inside => exact absurd inside (Nat.not_lt_zero _)
  unreachable := fun _ _ => ⟨rfl, rfl⟩

/--
Whatever child lists a lineage is built from, with cycles, repetitions and edges
to the root or out of range, its search comes to an end and holds the shortest
paths from the root.
-/
theorem ofChildren_isShortestPathTree
    (count : Nat)
    (childrenOf : NodeIndex → List NodeIndex) :
    IsShortestPathTree childrenOf count (ofChildren count childrenOf) ∧
      ∀ extra,
        search childrenOf (count + extra) (bare count) [.root] = ofChildren count childrenOf := by
  cases count with
  | zero => exact ⟨bare_zero_isShortestPathTree, fun extra => search_bare_zero _⟩
  | succ count =>
      obtain ⟨order, depth, explores, layered, same⟩ :=
        ofChildren_layered childrenOf (Nat.zero_lt_succ count)
      exact ⟨explores.isShortestPathTree layered, same⟩

-- Node 2 has edges from nodes 0 and 1 and one back to the root; the edge to node 9 is out of range.
example :
    (ofEdges 5 [(⟨0⟩, ⟨1⟩), (⟨0⟩, ⟨2⟩), (⟨1⟩, ⟨2⟩), (⟨2⟩, ⟨0⟩), (⟨2⟩, ⟨3⟩), (⟨3⟩, ⟨9⟩)]).ancestors
        ⟨3⟩ =
      [⟨2⟩, .root] := by
  decide

end ZigLint.Lineage
