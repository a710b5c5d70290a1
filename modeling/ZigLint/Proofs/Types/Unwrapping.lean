import Mathlib.Logic.Relation
import ZigLint.Proofs.Declaration.Aliases
import ZigLint.Proofs.Syntax.Accessors

namespace ZigLint

/-!
# Unwrapping reaches the inner node

`unwrapType` follows wrappers for as many steps as the tree has nodes. In a parsed
tree what is wrapped has a smaller index than its wrapper, so the wrappers end
before the steps do: the number of steps never decides where unwrapping stops.
-/

namespace SyntaxTree

variable
  {source : String}
  {tree : SyntaxTree}
  {index inner : NodeIndex}

/-- The tags of the nodes that unwrapping passes. -/
def wrapperTags : List NodeTag :=
  [.ptrType, .optionalType, .grouped]

/-- The outer node is a pointer, optional or grouping, and the inner node is what it wraps. -/
def Wraps (tree : SyntaxTree) (outer inner : NodeIndex) : Prop :=
  tree.HasTag outer wrapperTags ∧ tree.wrapped? outer = some inner

/-- Unwrapping the node goes all the way, and unwrapping a return type one error union further. -/
structure UnwrapsFully (tree : SyntaxTree) (index : NodeIndex) : Prop where
  /-- Where unwrapping ends there is a node, and it is no wrapper. -/
  inner_tag :
    ∃ tag, tree.tag? (tree.unwrapType index) = some tag ∧ tag ∉ wrapperTags
  /-- A larger number of steps makes no difference. -/
  steps_suffice :
    ∀ steps, tree.nodes.size ≤ steps → tree.unwrapSteps steps index = tree.unwrapType index
  /-- Every step goes from a wrapper to what it wraps. -/
  reached : Relation.ReflTransGen tree.Wraps index (tree.unwrapType index)
  fixed : tree.unwrapType (tree.unwrapType index) = tree.unwrapType index
  returnType_eq :
    tree.tag? (tree.unwrapType index) ≠ some .errorUnion →
      tree.unwrapReturnType index = tree.unwrapType index
  returnType_errorUnion :
    tree.tag? (tree.unwrapType index) = some .errorUnion →
      ∃ payload,
        tree.child? (tree.unwrapType index) .payload = some payload ∧
          tree.unwrapReturnType index = tree.unwrapType payload

theorem stepInside?_eq_some_iff :
    tree.stepInside? index = some inner ↔ tree.Wraps index inner := by
  unfold stepInside? Wraps HasTag wrapperTags
  cases tree.tag? index with
  | none => simp
  | some tag => cases tag <;> simp

/-- In a parsed tree nothing is inside of a node exactly if the node is no wrapper. -/
theorem stepInside?_eq_none_iff
    (parsed : parse source = .ok tree) :
    tree.stepInside? index = none ↔ ¬tree.HasTag index wrapperTags := by
  rw [← Option.not_isSome_iff_eq_none, not_iff_not, Option.isSome_iff_exists]
  constructor
  · rintro ⟨inner, inside⟩
    exact (stepInside?_eq_some_iff.mp inside).1
  · intro isWrapper
    have wraps : (tree.wrapped? index).isSome := by
      obtain ⟨tag, isTag, tagEq⟩ := isWrapper
      have isTag : tag ∈ wrapperTags ++ [.errorUnion] := List.mem_append_left _ isTag
      exact (wrapped?_isSome_iff parsed).mpr ⟨tag, isTag, tagEq⟩
    obtain ⟨inner, wraps⟩ := Option.isSome_iff_exists.mp wraps
    exact ⟨inner, stepInside?_eq_some_iff.mpr ⟨isWrapper, wraps⟩⟩

/-- What is wrapped comes before its wrapper, and after the root. -/
theorem Wraps.inner_lt
    (parsed : parse source = .ok tree)
    (wraps : tree.Wraps index inner) :
    inner.val < index.val ∧ inner.val < tree.nodes.size := by
  obtain ⟨⟨tag, isWrapper, tagEq⟩, wraps⟩ := wraps
  obtain ⟨node, found, isChild⟩ := mem_children_iff.mp (mem_children_of_wrapped? wraps)
  have inside := (parse_child_bounds parsed (mem_children_of_wrapped? wraps)).2
  refine ⟨parse_child_lt parsed ?_ found isChild, inside⟩
  rintro rfl
  obtain ⟨_, _, _, nodesEq, -⟩ := parse_forest parsed
  have isRoot : tree.tag? .root = some .root := by
    rw [tag?, form?, node?, ← Array.getElem?_toList, nodesEq]
    rfl
  obtain rfl := Option.some.inj (tagEq.symm.trans isRoot)
  simp [wrapperTags] at isWrapper

/--
With more steps than the index of a node, unwrapping ends at a node without a wrapper.

Each step leads to a smaller index, so the steps that are left stay more than that.
-/
theorem parse_unwrapSteps
    {steps : Nat}
    (parsed : parse source = .ok tree)
    (enough : index.val < steps) :
    Relation.ReflTransGen tree.Wraps index (tree.unwrapSteps steps index) ∧
      tree.stepInside? (tree.unwrapSteps steps index) = none := by
  induction steps generalizing index with
  | zero => exact (Nat.not_lt_zero _ enough).elim
  | succ steps inductionHypothesis =>
      rw [unwrapSteps_succ]
      cases inside : tree.stepInside? index with
      | none => exact ⟨.refl, inside⟩
      | some inner =>
          have wraps := stepInside?_eq_some_iff.mp inside
          have innerLt := (wraps.inner_lt parsed).1
          have innerEnough := Nat.lt_of_lt_of_le innerLt (Nat.le_of_lt_succ enough)
          obtain ⟨reached, ends⟩ := inductionHypothesis innerEnough
          exact ⟨.head wraps reached, ends⟩

/-- A node in which nothing is wrapped stays as it is. -/
theorem unwrapSteps_of_stepInside?_eq_none
    (nothing : tree.stepInside? index = none)
    (steps : Nat) :
    tree.unwrapSteps steps index = index := by
  cases steps with
  | zero => rfl
  | succ steps => rw [unwrapSteps_succ, nothing]

/-- Once nothing is wrapped any more, further steps change nothing. -/
theorem unwrapSteps_eq_of_le
    {fewer more : Nat}
    (ends : tree.stepInside? (tree.unwrapSteps fewer index) = none)
    (le : fewer ≤ more) :
    tree.unwrapSteps more index = tree.unwrapSteps fewer index := by
  induction fewer generalizing index more with
  | zero => exact unwrapSteps_of_stepInside?_eq_none ends more
  | succ fewer inductionHypothesis =>
      obtain ⟨more, rfl⟩ := Nat.exists_eq_add_of_lt le
      rw [unwrapSteps_succ] at ends ⊢
      rw [unwrapSteps_succ]
      cases inside : tree.stepInside? index with
      | none => rfl
      | some inner =>
          rw [inside] at ends
          exact inductionHypothesis ends (Nat.le_add_right fewer more)

/-- A wrapper leads to a node of the tree. -/
theorem lt_size_of_reached
    (parsed : parse source = .ok tree)
    (inside : index.val < tree.nodes.size)
    (reached : Relation.ReflTransGen tree.Wraps index inner) :
    inner.val < tree.nodes.size := by
  cases reached with
  | refl => exact inside
  | tail _ wraps => exact (wraps.inner_lt parsed).2

theorem tag?_isSome_of_lt
    (inside : index.val < tree.nodes.size) :
    ∃ tag, tree.tag? index = some tag := by
  rw [tag?, form?, node?, Array.getElem?_eq_getElem inside]
  exact ⟨_, rfl⟩

/-- The payload of an error union in a parsed tree is what it wraps. -/
theorem parse_exists_payload
    (parsed : parse source = .ok tree)
    (isErrorUnion : tree.tag? index = some .errorUnion) :
    ∃ payload, tree.wrapped? index = some payload ∧ tree.child? index .payload = some payload := by
  have wraps : (tree.wrapped? index).isSome :=
    (wrapped?_isSome_iff parsed).mpr ⟨.errorUnion, by simp, isErrorUnion⟩
  obtain ⟨payload, wraps⟩ := Option.isSome_iff_exists.mp wraps
  refine ⟨payload, wraps, ?_⟩
  obtain ⟨node, found, wraps⟩ := Option.bind_eq_some_iff.mp wraps
  rw [tag?, form?, found] at isErrorUnion
  rw [child?, found]
  cases formEq : node.form <;> simp_all [NodeForm.tag]

/-- Every node of a parsed tree is unwrapped to the node inside all of its wrappers. -/
theorem parse_unwrapsFully
    (parsed : parse source = .ok tree)
    (inside : index.val < tree.nodes.size) :
    tree.UnwrapsFully index := by
  obtain ⟨reached, ends⟩ := parse_unwrapSteps parsed inside
  have innerInside := lt_size_of_reached parsed inside reached
  obtain ⟨tag, tagEq⟩ := tag?_isSome_of_lt innerInside
  exact {
    inner_tag := by
      refine ⟨tag, tagEq, fun isWrapper => ?_⟩
      exact (stepInside?_eq_none_iff parsed).mp ends ⟨tag, isWrapper, tagEq⟩
    steps_suffice := fun _ => unwrapSteps_eq_of_le ends
    reached := reached
    fixed := unwrapSteps_of_stepInside?_eq_none ends _
    returnType_eq := fun isOther => if_neg isOther
    returnType_errorUnion := by
      intro isErrorUnion
      obtain ⟨payload, wraps, isPayload⟩ := parse_exists_payload parsed isErrorUnion
      refine ⟨payload, isPayload, ?_⟩
      simp only [unwrapReturnType, isErrorUnion, if_true, wraps]
  }

/-- A grouped optional pointer to an error union, whose payload is wrapped again. -/
theorem parse_unwrapsFully_errorUnion :
    ∃ tree,
      parse "const T = (?*(E!*u8));" = .ok tree ∧
        tree.unwrapType ⟨8⟩ = ⟨4⟩ ∧
          tree.unwrapReturnType ⟨8⟩ = ⟨2⟩ ∧ tree.UnwrapsFully ⟨8⟩ := by
  have facts :
      (parse "const T = (?*(E!*u8));").toOption.map
          (fun tree => (tree.nodes.size, tree.unwrapType ⟨8⟩, tree.unwrapReturnType ⟨8⟩)) =
        some (10, ⟨4⟩, ⟨2⟩) := by
    decide +kernel
  obtain ⟨tree, hasTree, factsEq⟩ := Option.map_eq_some_iff.mp facts
  have parsed := eq_ok_of_toOption hasTree
  simp only [Prod.mk.injEq] at factsEq
  obtain ⟨sizeEq, innerEq, returnEq⟩ := factsEq
  exact ⟨tree, parsed, innerEq, returnEq, parse_unwrapsFully parsed (by rw [sizeEq]; decide)⟩

end SyntaxTree

end ZigLint
