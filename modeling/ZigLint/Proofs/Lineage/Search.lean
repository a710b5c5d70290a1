import Mathlib.Data.List.Nodup
import Mathlib.Data.List.Perm.Subperm
import ZigLint.Lineage

namespace ZigLint.Lineage

/-!
# Breadth-first search

The search keeps the nodes it has found in one list: those that have claimed
their children, and after them those that still wait. `Explores` says what the
table holds at every moment of the search. A node is found at most once, so as
many rounds as there are nodes leave nobody waiting.
-/

variable {childrenOf : NodeIndex → List NodeIndex} {count : Nat} {lineage : Lineage}

theorem isFree_iff
    {node : NodeIndex} :
    lineage.isFree node = true ↔
      node.val < lineage.size ∧ node ≠ .root ∧ lineage.parent? node = none := by
  simp [isFree, and_assoc]

/-- What it means that `parent` takes the free ones of `candidates` over. -/
structure Adopts
    (before : Lineage)
    (parent : NodeIndex)
    (candidates : List NodeIndex)
    (after : Lineage)
    (adopted : List NodeIndex) :
    Prop where
  sublist : adopted.Sublist candidates
  nodup : adopted.Nodup
  mem_iff : ∀ child, child ∈ adopted ↔ child ∈ candidates ∧ before.isFree child = true
  parent?_eq :
    ∀ child, after.parent? child =
      if child ∈ adopted then some parent else before.parent? child
  size_eq : after.size = before.size

/-- Writing one parent into the table changes the parent of this child only. -/
theorem parent?_set
    {child parent : NodeIndex}
    (inside : child.val < lineage.size)
    (node : NodeIndex) :
    { lineage with parents := lineage.parents.setIfInBounds child.val (some parent) }.parent? node =
      if node = child then some parent else lineage.parent? node := by
  by_cases same : node = child
  · subst same
    simp [parent?, Array.getElem?_setIfInBounds_self_of_lt inside]
  · have apart : child.val ≠ node.val := fun sameVal => same (NodeIndex.val_inj.mp sameVal.symm)
    simp [parent?, Array.getElem?_setIfInBounds_ne apart, same]

theorem adopt_adopts
    (lineage : Lineage)
    (parent : NodeIndex)
    (candidates : List NodeIndex) :
    Adopts lineage parent candidates
        (lineage.adopt parent candidates).1 (lineage.adopt parent candidates).2 ∧
      (lineage.adopt parent candidates).1.childLists = lineage.childLists := by
  induction candidates generalizing lineage with
  | nil =>
      refine ⟨⟨.slnil, List.nodup_nil, ?_, ?_, rfl⟩, rfl⟩
      · simp [adopt]
      · simp [adopt]
  | cons child rest inductionHypothesis =>
      by_cases free : lineage.isFree child
      · obtain ⟨inside, notRoot, noParent⟩ := isFree_iff.mp free
        -- The rest is adopted in a table in which `child` is no longer free.
        let claimed : Lineage :=
          { lineage with parents := lineage.parents.setIfInBounds child.val (some parent) }
        have parent?_claimed : ∀ node, claimed.parent? node = _ := parent?_set inside
        have claimed_size : claimed.size = lineage.size := Array.size_setIfInBounds
        have isFree_claimed :
            ∀ node, claimed.isFree node = true ↔ node ≠ child ∧ lineage.isFree node = true := by
          intro node
          rw [isFree_iff, isFree_iff, parent?_claimed, claimed_size]
          by_cases same : node = child <;> simp [same]
        obtain ⟨adopts, childLists_eq⟩ := inductionHypothesis claimed
        rw [show lineage.adopt parent (child :: rest) =
          ((claimed.adopt parent rest).1, child :: (claimed.adopt parent rest).2) from if_pos free]
        refine ⟨⟨adopts.sublist.cons_cons child, ?_, ?_, ?_, ?_⟩, childLists_eq⟩
        · refine List.nodup_cons.mpr ⟨fun again => ?_, adopts.nodup⟩
          exact ((isFree_claimed child).mp ((adopts.mem_iff child).mp again).2).1 rfl
        · intro node
          rw [List.mem_cons, adopts.mem_iff, isFree_claimed, List.mem_cons]
          by_cases same : node = child
          · simp [same, free]
          · simp [same]
        · intro node
          rw [adopts.parent?_eq, parent?_claimed]
          by_cases same : node = child <;> simp [same]
        · exact adopts.size_eq.trans claimed_size
      · obtain ⟨adopts, childLists_eq⟩ := inductionHypothesis lineage
        rw [show lineage.adopt parent (child :: rest) = lineage.adopt parent rest from if_neg free]
        refine ⟨⟨adopts.sublist.cons child, adopts.nodup, ?_, adopts.parent?_eq, adopts.size_eq⟩,
          childLists_eq⟩
        intro node
        rw [adopts.mem_iff, List.mem_cons]
        by_cases same : node = child
        · simp [same, free]
        · simp [same]

/-- A claim appends the adopted nodes to the children of their new parent. -/
theorem children_claim
    {parent : NodeIndex}
    (candidates : List NodeIndex)
    (inside : parent.val < lineage.childLists.size)
    (node : NodeIndex) :
    (lineage.claim parent candidates).1.children node =
      lineage.children node ++
        if node = parent then (lineage.claim parent candidates).2 else [] := by
  have childLists_eq := (adopt_adopts lineage parent candidates).2
  simp only [claim, children, Array.getElem?_modify, childLists_eq]
  by_cases same : node = parent
  · subst same
    simp [Array.getElem?_eq_getElem inside]
  · have apart : parent.val ≠ node.val := fun sameVal => same (NodeIndex.val_inj.mp sameVal.symm)
    simp [same, apart]

theorem childLists_size_claim
    (lineage : Lineage)
    (parent : NodeIndex)
    (candidates : List NodeIndex) :
    (lineage.claim parent candidates).1.childLists.size = lineage.childLists.size := by
  simp only [claim, Array.size_modify, (adopt_adopts lineage parent candidates).2]

theorem claim_adopts
    (lineage : Lineage)
    (parent : NodeIndex)
    (candidates : List NodeIndex) :
    Adopts lineage parent candidates
      (lineage.claim parent candidates).1 (lineage.claim parent candidates).2 := by
  obtain ⟨adopts, -⟩ := adopt_adopts lineage parent candidates
  exact ⟨adopts.sublist, adopts.nodup, adopts.mem_iff, adopts.parent?_eq, adopts.size_eq⟩

/--
The table in the middle of a search over `count` nodes: the nodes in `settled`
have claimed their children, those in `waiting` are next.
-/
structure Explores
    (childrenOf : NodeIndex → List NodeIndex)
    (count : Nat)
    (lineage : Lineage)
    (settled waiting : List NodeIndex) :
    Prop where
  size_eq : lineage.size = count
  childLists_size_eq : lineage.childLists.size = count
  /-- Every node is found at most once. -/
  nodup : (settled ++ waiting).Nodup
  /-- The nodes found are the root and those with a parent. -/
  mem_iff :
    ∀ node, node ∈ settled ++ waiting ↔ node = .root ∨ ∃ parent, lineage.parent? node = some parent
  inside : ∀ node ∈ settled ++ waiting, node.val < count
  root_free : lineage.parent? .root = none
  /-- Parents and children are two views of one relation. -/
  parent?_iff :
    ∀ parent child, lineage.parent? child = some parent ↔ child ∈ lineage.children parent
  children_sublist : ∀ parent, (lineage.children parent).Sublist (childrenOf parent)
  children_nodup : ∀ parent, (lineage.children parent).Nodup
  /-- Only settled nodes have children. -/
  children_eq_nil : ∀ node, node ∉ settled → lineage.children node = []
  /-- All that can be claimed from a settled node has been found. -/
  closed :
    ∀ node ∈ settled, ∀ child ∈ childrenOf node, child.val < count → child ∈ settled ++ waiting

namespace Explores

variable {settled waiting : List NodeIndex}

/-- The table without edges, with the root waiting. -/
theorem bare
    (positive : 0 < count) :
    Explores childrenOf count (bare count) [] [.root] where
  size_eq := by simp [Lineage.bare, size]
  childLists_size_eq := by simp [Lineage.bare]
  nodup := by simp
  mem_iff := by simp [Lineage.bare, parent?, Array.getElem?_replicate, Option.join_eq_some_iff]
  inside := by simpa [NodeIndex.root] using positive
  root_free := by simp [Lineage.bare, parent?, positive, NodeIndex.root]
  parent?_iff := by
    intro parent child
    simp [Lineage.bare, parent?, children, Array.getElem?_replicate, Option.join_eq_some_iff]
    split <;> simp
  children_sublist := by
    intro parent
    simp [Lineage.bare, children, Array.getElem?_replicate]
    split <;> simp
  children_nodup := by
    intro parent
    simp [Lineage.bare, children, Array.getElem?_replicate]
    split <;> simp
  children_eq_nil := by
    intro node _
    simp [Lineage.bare, children, Array.getElem?_replicate]
    split <;> simp
  closed := by simp

/-- One step of the search: the first node that waits claims its children. -/
theorem claim
    {node : NodeIndex}
    (explores : Explores childrenOf count lineage settled (node :: waiting)) :
    Explores childrenOf count (lineage.claim node (childrenOf node)).1
      (settled ++ [node]) (waiting ++ (lineage.claim node (childrenOf node)).2) := by
  have adopts := claim_adopts lineage node (childrenOf node)
  have isFound : node ∈ settled ++ node :: waiting := by simp
  have nodeInside := explores.inside node isFound
  have children_eq :=
    children_claim (childrenOf node) (explores.childLists_size_eq ▸ nodeInside)
  have notSettled : node ∉ settled := by
    intro isSettled
    have apart := (List.nodup_append.mp explores.nodup).2.2
    exact apart node isSettled node (by simp) rfl
  have childless := explores.children_eq_nil node notSettled
  have childLists_size := childLists_size_claim lineage node (childrenOf node)
  generalize (lineage.claim node (childrenOf node)).1 = after at *
  generalize (lineage.claim node (childrenOf node)).2 = claimed at *
  have claimed_free :
      ∀ child ∈ claimed,
        child.val < count ∧ child ≠ .root ∧ lineage.parent? child = none := by
    intro child isClaimed
    have free := isFree_iff.mp ((adopts.mem_iff child).mp isClaimed).2
    rwa [explores.size_eq] at free
  have claimed_new : ∀ child ∈ claimed, child ∉ settled ++ node :: waiting := by
    intro child isClaimed isFound
    obtain ⟨-, notRoot, noParent⟩ := claimed_free child isClaimed
    obtain isRoot | ⟨parent, hasParent⟩ := (explores.mem_iff child).mp isFound
    · exact notRoot isRoot
    · rw [noParent] at hasParent
      cases hasParent
  have found_eq :
      (settled ++ [node]) ++ (waiting ++ claimed) = (settled ++ node :: waiting) ++ claimed := by
    simp
  refine {
    size_eq := adopts.size_eq.trans explores.size_eq
    childLists_size_eq := childLists_size.trans explores.childLists_size_eq
    nodup := ?_
    mem_iff := ?_
    inside := ?_
    root_free := ?_
    parent?_iff := ?_
    children_sublist := ?_
    children_nodup := ?_
    children_eq_nil := ?_
    closed := ?_
  }
  · rw [found_eq]
    refine List.nodup_append.mpr ⟨explores.nodup, adopts.nodup, ?_⟩
    rintro found isFound _ isClaimed rfl
    exact claimed_new found isClaimed isFound
  · intro child
    rw [found_eq, List.mem_append, explores.mem_iff, adopts.parent?_eq]
    by_cases isClaimed : child ∈ claimed <;> simp [isClaimed]
  · intro child isFound
    rw [found_eq, List.mem_append] at isFound
    exact isFound.elim (explores.inside child) fun isClaimed => (claimed_free child isClaimed).1
  · rw [adopts.parent?_eq, if_neg]
    · exact explores.root_free
    · intro isClaimed
      exact (claimed_free .root isClaimed).2.1 rfl
  · intro parent child
    rw [adopts.parent?_eq, children_eq, List.mem_append, ← explores.parent?_iff]
    by_cases isClaimed : child ∈ claimed
    · have noParent := (claimed_free child isClaimed).2.2
      by_cases same : parent = node
      · simp [isClaimed, same]
      · simp [isClaimed, same, noParent, Ne.symm same]
    · by_cases same : parent = node <;> simp [isClaimed, same]
  · intro parent
    rw [children_eq]
    by_cases same : parent = node
    · subst same
      simpa [childless] using adopts.sublist
    · simpa [same] using explores.children_sublist parent
  · intro parent
    rw [children_eq]
    by_cases same : parent = node
    · subst same
      simpa [childless] using adopts.nodup
    · simpa [same] using explores.children_nodup parent
  · intro other notSettled
    rw [List.mem_append, List.mem_singleton, not_or] at notSettled
    simp [children_eq, notSettled.2, explores.children_eq_nil other notSettled.1]
  · intro parent isSettled child isChild inside
    rw [found_eq, List.mem_append]
    rcases List.mem_append.mp isSettled with isSettled | isNode
    · exact .inl (explores.closed parent isSettled child isChild inside)
    · obtain rfl := List.mem_singleton.mp isNode
      by_cases free : lineage.isFree child
      · exact .inr ((adopts.mem_iff child).mpr ⟨isChild, free⟩)
      · refine .inl ((explores.mem_iff child).mpr ?_)
        by_contra unknown
        rw [not_or, not_exists] at unknown
        apply free
        refine isFree_iff.mpr ⟨explores.size_eq ▸ inside, unknown.1, ?_⟩
        exact Option.eq_none_iff_forall_ne_some.mpr unknown.2

/-- A generation claims its children in turn, and the next one waits behind the others. -/
theorem claimAll
    {generation : List NodeIndex}
    (explores : Explores childrenOf count lineage settled (generation ++ waiting)) :
    Explores childrenOf count (lineage.claimAll childrenOf generation).1
      (settled ++ generation) (waiting ++ (lineage.claimAll childrenOf generation).2) := by
  induction generation generalizing lineage settled waiting with
  | nil => simpa [Lineage.claimAll] using explores
  | cons node rest inductionHypothesis =>
      have claimed :
          Explores childrenOf count (lineage.claim node (childrenOf node)).1 (settled ++ [node])
            (rest ++ (waiting ++ (lineage.claim node (childrenOf node)).2)) := by
        rw [← List.append_assoc]
        exact explores.claim
      simpa [Lineage.claimAll] using inductionHypothesis claimed

theorem length_le
    (explores : Explores childrenOf count lineage settled waiting) :
    (settled ++ waiting).length ≤ count := by
  have subset : (settled ++ waiting).map NodeIndex.val ⊆ List.range count := by
    intro position isListed
    obtain ⟨node, isFound, rfl⟩ := List.mem_map.mp isListed
    exact List.mem_range.mpr (explores.inside node isFound)
  have nodup : ((settled ++ waiting).map NodeIndex.val).Nodup := by
    apply List.Nodup.map _ explores.nodup
    intro one other
    exact NodeIndex.val_inj.mp
  simpa using (nodup.subperm subset).length_le

/--
A search with enough rounds left ends with nobody waiting, and further rounds
change nothing. What every round keeps holds at the end.
-/
theorem search
    {generation : List NodeIndex}
    {rounds : Nat}
    (invariant : Lineage → List NodeIndex → List NodeIndex → Prop)
    (kept :
      ∀ lineage settled node rest,
        Explores childrenOf count lineage settled (node :: rest) →
        invariant lineage settled (node :: rest) →
        invariant (lineage.claimAll childrenOf (node :: rest)).1 (settled ++ node :: rest)
          (lineage.claimAll childrenOf (node :: rest)).2)
    (explores : Explores childrenOf count lineage settled generation)
    (holds : invariant lineage settled generation)
    (enough : generation = [] ∨ count < rounds + (settled ++ generation).length) :
    ∃ order,
      Explores childrenOf count (search childrenOf rounds lineage generation) order [] ∧
        invariant (Lineage.search childrenOf rounds lineage generation) order [] ∧
          ∀ extra,
            Lineage.search childrenOf (rounds + extra) lineage generation =
              Lineage.search childrenOf rounds lineage generation := by
  have search_nil :
      ∀ lineage rounds, Lineage.search childrenOf rounds lineage [] = lineage := by
    intro lineage rounds
    cases rounds <;> rfl
  induction rounds generalizing lineage settled generation with
  | zero =>
      obtain rfl | tooMany := enough
      · exact ⟨settled, explores, holds, fun extra => search_nil lineage _⟩
      · have := explores.length_le
        omega
  | succ rounds inductionHypothesis =>
      cases generation with
      | nil => exact ⟨settled, explores, holds, fun extra => search_nil lineage _⟩
      | cons node rest =>
          have next :
              Explores childrenOf count (lineage.claimAll childrenOf (node :: rest)).1
                (settled ++ node :: rest) (lineage.claimAll childrenOf (node :: rest)).2 := by
            rw [← List.append_nil (node :: rest)] at explores
            exact explores.claimAll
          have enoughLeft :
              (lineage.claimAll childrenOf (node :: rest)).2 = [] ∨
                count <
                  rounds +
                    (settled ++ node :: rest ++
                      (lineage.claimAll childrenOf (node :: rest)).2).length := by
            cases (lineage.claimAll childrenOf (node :: rest)).2 with
            | nil => exact .inl rfl
            | cons _ _ =>
                have := enough.resolve_left nofun
                simp only [List.length_append, List.length_cons] at this ⊢
                omega
          obtain ⟨order, explored, heldOn, same⟩ :=
            inductionHypothesis next (kept _ _ _ _ explores holds) enoughLeft
          refine ⟨order, explored, heldOn, fun extra => ?_⟩
          rw [Nat.add_right_comm]
          exact same extra

end Explores

/-- The search from the root settles everything that it finds. -/
theorem ofChildren_explores
    (positive : 0 < count) :
    ∃ order, Explores childrenOf count (ofChildren count childrenOf) order [] := by
  rw [ofChildren, if_neg (by omega)]
  have enough : [NodeIndex.root] = [] ∨ count < count + ([] ++ [NodeIndex.root]).length :=
    .inr (by simp)
  obtain ⟨order, explores, -, -⟩ :=
    (Explores.bare positive).search (fun _ _ _ => True) (fun _ _ _ _ _ _ => trivial) trivial
      enough
  exact ⟨order, explores⟩

end ZigLint.Lineage
