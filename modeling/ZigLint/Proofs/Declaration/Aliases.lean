import Mathlib.Algebra.BigOperators.Intervals
import ZigLint.Declaration.Site
import ZigLint.Proofs.Syntax.Layout

namespace ZigLint

/-!
# Aliases of types

A binding whose value is a name has the kind of what the name refers to. The name
is followed by type resolution, which spends one unit of its budget on every name
and on every wrapper it passes, so aliases are transparent up to a total weight,
and an alias that leads back to itself has no type.
-/

/-- The name has a meaning that no declaration gives it. -/
def isBuiltinName (name : String) : Bool :=
  name == "type" || name == "anyerror" || name == "true" || name == "false" ||
    name == "null" || name == "undefined" || isPrimitiveName name

namespace SyntaxTree

variable {tree : SyntaxTree}

section Wrappers

/-- The node inside a pointer, optional or grouping. -/
def stepInside? (tree : SyntaxTree) (index : NodeIndex) : Option NodeIndex :=
  match tree.tag? index with
  | some .ptrType | some .optionalType | some .grouped => tree.wrapped? index
  | _ => none

/-- The number of wrappers that `unwrapSteps` passes. -/
def wrappersWithin (tree : SyntaxTree) : (steps : Nat) → NodeIndex → Nat
  | 0, _ => 0
  | steps + 1, index =>
      match tree.stepInside? index with
      | some inner => tree.wrappersWithin steps inner + 1
      | none => 0

/-- The number of pointer, optional and grouping nodes around the node that `unwrapType` finds. -/
def wrapperCount (tree : SyntaxTree) (index : NodeIndex) : Nat :=
  tree.wrappersWithin tree.nodes.size index

theorem unwrapSteps_succ
    (steps : Nat)
    (index : NodeIndex) :
    tree.unwrapSteps (steps + 1) index =
      match tree.stepInside? index with
      | some inner => tree.unwrapSteps steps inner
      | none => index := by
  rw [unwrapSteps, stepInside?]
  cases tree.tag? index with
  | none => rfl
  | some tag => cases tag <;> rfl

/-- The type of a node without its wrappers, within a budget of resolution steps. -/
def normalTypeWithin? (tree : SyntaxTree) (budget : Nat) (index : NodeIndex) :
    Option ResolvedType :=
  (tree.typeWithin? budget index).map ResolvedType.normalize

/-- A wrapper costs one unit of budget and does not show in the normal form. -/
theorem normalTypeWithin?_stepInside
    {index inner : NodeIndex}
    (inside : tree.stepInside? index = some inner)
    (budget : Nat) :
    tree.normalTypeWithin? (budget + 1) index = tree.normalTypeWithin? budget inner := by
  unfold normalTypeWithin?
  cases node_eq : tree.node? index with
  | none => simp [stepInside?, tag?, form?, node_eq] at inside
  | some node =>
      simp only [stepInside?, tag?, form?, wrapped?, node_eq, Option.map_some, Option.bind_eq_bind,
        Option.bind_some] at inside
      simp only [typeWithin?, typeOfNode?, node_eq, Option.bind_eq_bind, Option.bind_some]
      cases form_eq : node.form <;> simp only [form_eq, NodeForm.tag, reduceCtorEq] at inside ⊢
      case ptrType | optionalType =>
        rw [inside, Option.bind_some]
        cases tree.typeWithin? budget inner <;> rfl
      case grouped =>
        rw [inside]
        rfl

/-- All wrappers together cost as much budget as there are of them. -/
theorem normalTypeWithin?_unwrapSteps
    (budget steps : Nat)
    (index : NodeIndex) :
    tree.normalTypeWithin? budget index =
      tree.normalTypeWithin? (budget - tree.wrappersWithin steps index)
        (tree.unwrapSteps steps index) := by
  induction steps generalizing budget index with
  | zero => rfl
  | succ steps inductionHypothesis =>
      rw [unwrapSteps_succ, wrappersWithin]
      cases inside : tree.stepInside? index with
      | none => rfl
      | some inner =>
          cases budget with
          | zero =>
              rw [Nat.zero_sub]
              rfl
          | succ budget =>
              rw [normalTypeWithin?_stepInside inside, inductionHypothesis, Nat.add_sub_add_right]

end Wrappers

section Bindings

/-- The value of a binding without annotation. -/
def plainValue? (tree : SyntaxTree) (index : NodeIndex) : Option NodeIndex :=
  match tree.binding? index with
  | some binding => if binding.type?.isNone then binding.value? else none
  | none => none

/-- The kind of the declaration at a node. -/
def kindAt? (tree : SyntaxTree) (index : NodeIndex) : Option DeclarationKind :=
  (tree.site? index).bind tree.declarationKind?

variable {index value : NodeIndex}

theorem kindAt?_of_plainValue
    (hasValue : tree.plainValue? index = some value) :
    tree.kindAt? index = some (tree.kindOfValue value) := by
  unfold plainValue? at hasValue
  cases binding_eq : tree.binding? index with
  | none => simp [binding_eq] at hasValue
  | some binding =>
      simp only [binding_eq, Option.isNone_iff_eq_none, Option.ite_none_right_eq_some] at hasValue
      simp [kindAt?, site?, declarationKind?, binding_eq, hasValue.1, hasValue.2]

/-- The type of a declaration without annotation is the type of its value. -/
theorem typeOfDeclaration?_of_plainValue
    (hasValue : tree.plainValue? index = some value)
    (typeAt? : NodeIndex → Option ResolvedType) :
    typeOfDeclaration? tree typeAt? index = typeAt? value := by
  unfold plainValue? binding? at hasValue
  cases node_eq : tree.node? index with
  | none => simp [node_eq] at hasValue
  | some node =>
      simp only [node_eq, Option.bind_eq_bind, Option.bind_some] at hasValue
      cases form_eq : node.form <;> simp only [form_eq, reduceCtorEq] at hasValue
      simp only [Option.isNone_iff_eq_none, Option.ite_none_right_eq_some] at hasValue
      simp [typeOfDeclaration?, node_eq, form_eq, hasValue.1, hasValue.2]

end Bindings

/--
What a binding without annotation is an alias of: the declaration that its value
refers to, when the value is, wrappers apart, a name that is not built in.
-/
def aliasTarget? (tree : SyntaxTree) (index : NodeIndex) : Option NodeIndex := do
  let inner := tree.unwrapType (← tree.plainValue? index)
  let name ← tree.identifier? inner
  if isBuiltinName name then none else tree.lookup? inner name

/-- The value of a binding without annotation is, wrappers apart, a type that is written out. -/
def definesType (tree : SyntaxTree) (index : NodeIndex) : Bool :=
  match (tree.plainValue? index).bind fun value => tree.tag? (tree.unwrapType value) with
  | some .containerDecl | some .errorSetDecl | some .mergeErrorSets => true
  | _ => false

/-- The number of wrappers around the value of the binding at `index`. -/
def wrappersOf (tree : SyntaxTree) (index : NodeIndex) : Nat :=
  (tree.plainValue? index).elim 0 tree.wrapperCount

/-- The type, in normal form, of what stands inside all wrappers in the value of a binding. -/
def heldTypeWithin? (tree : SyntaxTree) (budget : Nat) (index : NodeIndex) : Option ResolvedType :=
  (tree.plainValue? index).bind fun value =>
    tree.normalTypeWithin? budget (tree.unwrapType value)

/-- The kind of a binding that holds something of the given type. -/
def kindOfHeld (type? : Option ResolvedType) : DeclarationKind :=
  type?.elim .other .ofValueType

section Steps

variable {index target value : NodeIndex} {name : String}

/-- Without budget nothing is found. -/
theorem heldTypeWithin?_zero (index : NodeIndex) : tree.heldTypeWithin? 0 index = none := by
  unfold heldTypeWithin?
  cases tree.plainValue? index <;> rfl

theorem aliasTarget?_eq_some_iff :
    tree.aliasTarget? index = some target ↔
      ∃ value name,
        tree.plainValue? index = some value ∧
          tree.identifier? (tree.unwrapType value) = some name ∧
            isBuiltinName name = false ∧
              tree.lookup? (tree.unwrapType value) name = some target := by
  simp [aliasTarget?, Option.bind_eq_some_iff]

theorem exists_plainValue_of_aliasTarget?
    (isAlias : tree.aliasTarget? index = some target) :
    ∃ value, tree.plainValue? index = some value := by
  obtain ⟨value, _, value_eq, -⟩ := aliasTarget?_eq_some_iff.mp isAlias
  exact ⟨value, value_eq⟩

theorem exists_plainValue_of_definesType
    (defines : tree.definesType index = true) :
    ∃ value, tree.plainValue? index = some value := by
  unfold definesType at defines
  cases value_eq : tree.plainValue? index with
  | none =>
      rw [value_eq] at defines
      cases defines
  | some value => exact ⟨value, rfl⟩

theorem exists_node_of_identifier?
    (named : tree.identifier? index = some name) :
    ∃ node,
      tree.node? index = some node ∧ node.form = .identifier ∧ tree.tokenText node.main = name := by
  unfold identifier? at named
  cases node_eq : tree.node? index with
  | none => simp [node_eq] at named
  | some node =>
      simp only [node_eq, Option.bind_eq_bind, Option.bind_some] at named
      cases form_eq : node.form <;> simp only [form_eq, reduceCtorEq, Option.some.injEq] at named
      exact ⟨node, rfl, form_eq, named⟩

/-- A name that is not built in has the type of the declaration it refers to. -/
theorem typeOfNode?_name
    (named : tree.identifier? index = some name)
    (notBuiltin : isBuiltinName name = false)
    (found : tree.lookup? index name = some target)
    (typeAt? : NodeIndex → Option ResolvedType) :
    typeOfNode? tree typeAt? index = typeOfDeclaration? tree typeAt? target := by
  obtain ⟨node, node_eq, form_eq, text_eq⟩ := exists_node_of_identifier? named
  simp only [isBuiltinName, Bool.or_eq_false_iff, beq_eq_false_iff_ne] at notBuiltin
  simp [typeOfNode?, node_eq, form_eq, text_eq, typeOfName?, notBuiltin, found]

/-- An alias costs one unit of budget, and every wrapper around what it refers to one more. -/
theorem heldTypeWithin?_alias
    (isAlias : tree.aliasTarget? index = some target)
    (hasValue : tree.plainValue? target = some value)
    (budget : Nat) :
    tree.heldTypeWithin? budget index =
      tree.heldTypeWithin? (budget - (tree.wrappersOf target + 1)) target := by
  obtain ⟨aliasValue, name, aliasValue_eq, named, notBuiltin, found⟩ :=
    aliasTarget?_eq_some_iff.mp isAlias
  have followed :
      tree.normalTypeWithin? budget (tree.unwrapType aliasValue) =
        tree.normalTypeWithin? (budget - 1) value := by
    cases budget with
    | zero => rfl
    | succ budget =>
        rw [normalTypeWithin?, typeWithin?, typeOfNode?_name named notBuiltin found,
          typeOfDeclaration?_of_plainValue hasValue]
        rfl
  simp only [heldTypeWithin?, aliasValue_eq, hasValue, wrappersOf, Option.bind_some,
    Option.elim_some, followed]
  rw [normalTypeWithin?_unwrapSteps _ tree.nodes.size, Nat.sub_sub, Nat.add_comm]
  rfl

/-- The kind of an alias is decided by the type that is found within the whole budget. -/
theorem kindAt?_alias
    (isAlias : tree.aliasTarget? index = some target) :
    tree.kindAt? index = some (kindOfHeld (tree.heldTypeWithin? typeBudget index)) := by
  obtain ⟨value, name, value_eq, named, -, -⟩ := aliasTarget?_eq_some_iff.mp isAlias
  obtain ⟨node, node_eq, form_eq, -⟩ := exists_node_of_identifier? named
  rw [kindAt?_of_plainValue value_eq]
  simp only [heldTypeWithin?, normalTypeWithin?, value_eq, Option.bind_some, kindOfValue, typeOf?,
    form?, node_eq, form_eq, Option.map_some]
  cases tree.typeWithin? typeBudget (tree.unwrapType value) <;> rfl

/-- The kind of a type that is written out is the one that any budget gives to its aliases. -/
theorem kindAt?_definition
    (defines : tree.definesType index = true)
    (budget : Nat) :
    tree.kindAt? index = some (kindOfHeld (tree.heldTypeWithin? (budget + 1) index)) := by
  obtain ⟨value, value_eq⟩ := exists_plainValue_of_definesType defines
  rw [kindAt?_of_plainValue value_eq]
  simp only [definesType, value_eq, Option.bind_some, tag?, form?] at defines
  cases node_eq : tree.node? (tree.unwrapType value) with
  | none => simp [node_eq] at defines
  | some node =>
      simp only [heldTypeWithin?, normalTypeWithin?, value_eq, Option.bind_some, kindOfValue,
        typeWithin?, typeOfNode?, containerShape?, container?, form?, node_eq, Option.map_some,
        Option.bind_eq_bind]
      rw [node_eq] at defines
      cases form_eq : node.form <;> simp [form_eq, NodeForm.tag] at defines
      case errorSetDecl | mergeErrorSets | containerDecl => rfl

end Steps

/-- Along a chain of aliases the budget shrinks by the weight of the chain. -/
theorem heldTypeWithin?_chain
    {chain : Nat → NodeIndex}
    {length : Nat}
    (defines : tree.definesType (chain 0) = true)
    (areAliases :
      ∀ position < length, tree.aliasTarget? (chain (position + 1)) = some (chain position))
    (budget : Nat) :
    tree.heldTypeWithin? budget (chain length) =
      tree.heldTypeWithin?
        (budget - (length + ∑ position ∈ Finset.range length, tree.wrappersOf (chain position)))
        (chain 0) := by
  induction length generalizing budget with
  | zero => rfl
  | succ length inductionHypothesis =>
      have hasValue : ∃ value, tree.plainValue? (chain length) = some value := by
        cases length with
        | zero => exact exists_plainValue_of_definesType defines
        | succ length => exact exists_plainValue_of_aliasTarget? (areAliases length (by omega))
      obtain ⟨value, value_eq⟩ := hasValue
      rw [heldTypeWithin?_alias (areAliases length (Nat.lt_succ_self length)) value_eq,
        inductionHypothesis fun position lt => areAliases position (Nat.lt_succ_of_lt lt),
        Finset.sum_range_succ, Nat.sub_sub]
      congr 1
      omega

/-- Aliases that lead to nothing but aliases hold nothing that has a type. -/
theorem heldTypeWithin?_of_endless
    {endless : NodeIndex → Prop}
    (goesOn :
      ∀ index, endless index → ∃ target, endless target ∧ tree.aliasTarget? index = some target)
    (budget : Nat)
    {index : NodeIndex}
    (isEndless : endless index) :
    tree.heldTypeWithin? budget index = none := by
  induction budget using Nat.strongRecOn generalizing index with
  | _ budget inductionHypothesis =>
      cases budget with
      | zero => exact heldTypeWithin?_zero index
      | succ budget =>
          obtain ⟨target, targetEndless, isAlias⟩ := goesOn index isEndless
          obtain ⟨_, _, targetIsAlias⟩ := goesOn target targetEndless
          obtain ⟨value, value_eq⟩ := exists_plainValue_of_aliasTarget? targetIsAlias
          rw [heldTypeWithin?_alias isAlias value_eq]
          exact inductionHypothesis _ (by omega) targetEndless

/--
An alias of a type, with any number of aliases between and any wrappers around
them, has the kind of the type as long as names and wrappers together are at most
64, and is a plain value beyond that; so is every alias that leads back to itself.
-/
theorem kindAt?_aliases
    (tree : SyntaxTree) :
    (∀ (chain : Nat → NodeIndex) (length : Nat),
        tree.definesType (chain 0) = true →
        (∀ position < length, tree.aliasTarget? (chain (position + 1)) = some (chain position)) →
        ∃ kind,
          tree.kindAt? (chain 0) = some kind ∧
            tree.kindAt? (chain length) =
              some
                (if length + ∑ position ∈ Finset.range length, tree.wrappersOf (chain position) ≤ 64
                  then kind else .other)) ∧
      ∀ (cycle : Nat → NodeIndex) (length : Nat),
        0 < length →
        cycle length = cycle 0 →
        (∀ position < length, tree.aliasTarget? (cycle (position + 1)) = some (cycle position)) →
        ∀ position ≤ length, tree.kindAt? (cycle position) = some .other := by
  constructor
  · intro chain length defines areAliases
    refine ⟨_, kindAt?_definition defines 0, ?_⟩
    cases length with
    | zero => exact kindAt?_definition defines 0
    | succ length =>
        rw [kindAt?_alias (areAliases length (Nat.lt_succ_self length)),
          heldTypeWithin?_chain defines areAliases]
        generalize length + 1 + _ = weight
        by_cases light : weight ≤ 64
        · have left : typeBudget - weight = (64 - weight) + 1 := Nat.succ_sub light
          rw [if_pos light, left, ← kindAt?_definition defines, ← kindAt?_definition defines]
        · have left : typeBudget - weight = 0 := Nat.sub_eq_zero_of_le (Nat.lt_of_not_le light)
          rw [if_neg light, left, heldTypeWithin?_zero]
          rfl
  · intro cycle length positive closes areAliases position le
    have goesOn :
        ∀ index, (∃ place ≤ length, cycle place = index) →
          ∃ target,
            (∃ place ≤ length, cycle place = target) ∧ tree.aliasTarget? index = some target := by
      rintro _ ⟨place, placeLe, rfl⟩
      cases place with
      | zero =>
          obtain ⟨before, rfl⟩ := Nat.exists_eq_add_of_lt positive
          rw [← closes]
          exact ⟨_, ⟨_, by omega, rfl⟩, areAliases _ (by omega)⟩
      | succ place => exact ⟨_, ⟨place, by omega, rfl⟩, areAliases place placeLe⟩
    obtain ⟨target, -, isAlias⟩ := goesOn _ ⟨position, le, rfl⟩
    rw [kindAt?_alias isAlias, heldTypeWithin?_of_endless goesOn _ ⟨position, le, rfl⟩]
    rfl

/--
A type in 63 wrappers is a type for its alias, but not for an alias of the alias;
a name that refers to itself is no type.
-/
theorem kindAt?_aliases_at_limit :
    ∃ tree,
      parse
            "const A=???????????????????????????????????????????????????????????????struct{};
             const B=A;const C=B;const D=D;" =
          .ok tree ∧
        tree.definesType ⟨65⟩ = true ∧
          tree.wrappersOf ⟨65⟩ = 63 ∧
            tree.aliasTarget? ⟨67⟩ = some ⟨65⟩ ∧
              tree.aliasTarget? ⟨69⟩ = some ⟨67⟩ ∧
                tree.aliasTarget? ⟨71⟩ = some ⟨71⟩ ∧
                  tree.kindAt? ⟨65⟩ = some .namespaceType ∧
                    tree.kindAt? ⟨67⟩ = some .namespaceType ∧
                      tree.kindAt? ⟨69⟩ = some .other ∧ tree.kindAt? ⟨71⟩ = some .other := by
  have facts :
      (parse
            "const A=???????????????????????????????????????????????????????????????struct{};
             const B=A;const C=B;const D=D;").toOption.any
          (fun tree =>
            tree.definesType ⟨65⟩ && tree.wrappersOf ⟨65⟩ == 63 && tree.wrappersOf ⟨67⟩ == 0 &&
              tree.aliasTarget? ⟨67⟩ == some ⟨65⟩ && tree.aliasTarget? ⟨69⟩ == some ⟨67⟩ &&
              tree.aliasTarget? ⟨71⟩ == some ⟨71⟩ && tree.kindAt? ⟨65⟩ == some .namespaceType) =
        true := by
    decide +kernel
  obtain ⟨tree, hasTree, facts⟩ := (Option.any_eq_true _ _).mp facts
  simp only [Bool.and_eq_true, beq_iff_eq, and_assoc] at facts
  obtain ⟨defines, wrappers_eq, noWrappers, first, second, itself, kind_eq⟩ := facts
  obtain ⟨ofChain, ofCycle⟩ := kindAt?_aliases tree
  have chained :
      ∀ position < 2,
        tree.aliasTarget? ([⟨65⟩, ⟨67⟩, ⟨69⟩].getD (position + 1) .root) =
          some ([⟨65⟩, ⟨67⟩, ⟨69⟩].getD position .root) := by
    intro position lt
    match position with
    | 0 => exact first
    | 1 => exact second
  obtain ⟨kind, isKind, one⟩ :=
    ofChain (([⟨65⟩, ⟨67⟩, ⟨69⟩] : List NodeIndex).getD · .root) 1 defines
      fun position lt => chained position (Nat.lt_succ_of_lt lt)
  obtain ⟨_, -, two⟩ :=
    ofChain (([⟨65⟩, ⟨67⟩, ⟨69⟩] : List NodeIndex).getD · .root) 2 defines chained
  have alone := ofCycle (fun _ => ⟨71⟩) 1 (by decide) rfl (fun _ _ => itself) 0 (by decide)
  obtain rfl : .namespaceType = kind := Option.some.inj (kind_eq.symm.trans isKind)
  simp only [Finset.sum_range_succ, Finset.sum_range_zero, List.getD_cons_zero,
    List.getD_cons_succ, wrappers_eq, noWrappers] at one two
  exact ⟨tree, eq_ok_of_toOption hasTree, defines, wrappers_eq, first, second, itself, kind_eq,
    one, two, alone⟩

end SyntaxTree

end ZigLint
