import Mathlib.Logic.Relation
import ZigLint.Proofs.Syntax.Accessors
import ZigLint.Proofs.Syntax.NodeCount
import ZigLint.Types.Resolution

namespace ZigLint

/-!
# The first return of a function body

`firstReturn?` searches a body from child to child and passes over the containers
and functions in it, which return on their own. Children stand in source order and
a `return` starts with its keyword, so what the search finds first is the `return`
whose keyword comes first.
-/

/-- Bodies are blocks. -/
theorem NodeForm.category_of_body
    {form : NodeForm}
    {power : Nat}
    {slot : Slot}
    (isSlot : slot ∈ form.slots power)
    (forBody : slot.role = .body) :
    slot.category = .block := by
  cases form <;> simp only [slots, List.mem_cons, List.not_mem_nil, or_false] at isSlot <;>
    grind [Slot.role, Slot.category]

namespace SyntaxTree

variable
  {source : String}
  {tree : SyntaxTree}
  {index body node value child : NodeIndex}

/-- The inner node is a child of the outer one, or of a node below it. -/
def IsBelow (tree : SyntaxTree) (outer inner : NodeIndex) : Prop :=
  Relation.TransGen (fun parent child => child ∈ tree.children parent) outer inner

/-- The tags of the nodes that return on their own. -/
def returningTags : List NodeTag :=
  [.containerDecl, .fnDecl]

/--
The node is a `return` of the value below the body, with no node strictly between them
that returns on its own.
-/
structure ReturnsFrom (tree : SyntaxTree) (body node value : NodeIndex) : Prop where
  isBelow : tree.IsBelow body node
  isReturn : tree.tag? node = some .returnExpr
  isOperand : tree.child? node .operand = some value
  none_between :
    ∀ between,
      tree.IsBelow body between →
      tree.IsBelow between node →
      ¬tree.HasTag between returningTags

/-- The main token of one node stands before the main token of the other one. -/
def MainBefore (tree : SyntaxTree) (earlier later : NodeIndex) : Prop :=
  ∃ earlierNode laterNode,
    tree.node? earlier = some earlierNode ∧
      tree.node? later = some laterNode ∧ earlierNode.main.val < laterNode.main.val

theorem MainBefore.asymm
    (before : tree.MainBefore index node) :
    ¬tree.MainBefore node index := by
  rintro ⟨right', left', rightFound', leftFound', isAfter⟩
  obtain ⟨left, right, leftFound, rightFound, isBefore⟩ := before
  obtain rfl : left = left' := Option.some.inj (leftFound.symm.trans leftFound')
  obtain rfl : right = right' := Option.some.inj (rightFound.symm.trans rightFound')
  exact Nat.lt_asymm isBefore isAfter

/--
The search with a stack of the nodes that are still to be visited, the next one first,
ends with the answer.
-/
inductive Searches (tree : SyntaxTree) : List NodeIndex → Option NodeIndex → Prop where
  | nothing : Searches tree [] none
  | found
      {index value : NodeIndex}
      {stack : List NodeIndex} :
      tree.tag? index = some .returnExpr →
      tree.child? index .operand = some value →
      Searches tree (index :: stack) (some value)
  | bare
      {index : NodeIndex}
      {stack : List NodeIndex}
      {answer : Option NodeIndex} :
      tree.tag? index = some .returnExpr →
      tree.child? index .operand = none →
      Searches tree stack answer →
      Searches tree (index :: stack) answer
  | passed
      {index : NodeIndex}
      {stack : List NodeIndex}
      {answer : Option NodeIndex} :
      tree.HasTag index returningTags →
      Searches tree stack answer →
      Searches tree (index :: stack) answer
  | opened
      {index : NodeIndex}
      {stack : List NodeIndex}
      {answer : Option NodeIndex} :
      ¬tree.HasTag index returningTags →
      tree.tag? index ≠ some .returnExpr →
      Searches tree (tree.children index ++ stack) answer →
      Searches tree (index :: stack) answer

/-- The search of a body finds the operand of its first `return` with a value. -/
structure FindsFirstReturn (tree : SyntaxTree) (body : NodeIndex) : Prop where
  some_iff :
    ∀ value,
      tree.firstReturn? body = some value ↔
        ∃ node,
          tree.ReturnsFrom body node value ∧
            ∀ other otherValue,
              tree.ReturnsFrom body other otherValue →
              other ≠ node →
              tree.MainBefore node other
  none_iff : tree.firstReturn? body = none ↔ ∀ node value, ¬tree.ReturnsFrom body node value
  /-- A search with a stack, from which nodes come in source order, ends with the same answer. -/
  searches : tree.Searches [body] (tree.firstReturn? body)

/-- A search that finds the first `return`, and misses only what is not there, is as it should. -/
theorem FindsFirstReturn.of_outcomes
    (first :
      ∀ value,
        tree.firstReturn? body = some value →
        ∃ node,
          tree.ReturnsFrom body node value ∧
            ∀ other otherValue,
              tree.ReturnsFrom body other otherValue →
              other ≠ node →
              tree.MainBefore node other)
    (nothing :
      tree.firstReturn? body = none →
      ∀ node value, ¬tree.ReturnsFrom body node value)
    (searches : tree.Searches [body] (tree.firstReturn? body)) :
    tree.FindsFirstReturn body := by
  refine ⟨fun value => ⟨first value, ?_⟩, ⟨nothing, fun none => ?_⟩, searches⟩
  · rintro ⟨node, returns, isFirst⟩
    cases finds : tree.firstReturn? body with
    | none => exact absurd returns (nothing finds node value)
    | some found =>
        obtain ⟨firstNode, firstReturns, firstIsFirst⟩ := first found finds
        obtain rfl : node = firstNode := by
          by_contra distinct
          exact (firstIsFirst node value returns distinct).asymm
            (isFirst firstNode found firstReturns (Ne.symm distinct))
        exact firstReturns.isOperand.symm.trans returns.isOperand
  · cases finds : tree.firstReturn? body with
    | none => rfl
    | some value =>
        obtain ⟨node, returns, -⟩ := first value finds
        exact absurd returns (none node value)

/-- The search goes on from a node that does not return on its own to its children. -/
def Opens (tree : SyntaxTree) (parent child : NodeIndex) : Prop :=
  ¬tree.HasTag parent returningTags ∧ child ∈ tree.children parent

/-- The search from an index reaches a `return` of the value. -/
structure Reaches (tree : SyntaxTree) (index node value : NodeIndex) : Prop where
  path : Relation.ReflTransGen tree.Opens index node
  isReturn : tree.tag? node = some .returnExpr
  isOperand : tree.child? node .operand = some value

/-- What stands below an inner node comes before it. -/
theorem IsBelow.lt
    {outer inner : NodeIndex}
    (parsed : parse source = .ok tree)
    (isBelow : tree.IsBelow outer inner)
    (notRoot : outer ≠ .root) :
    inner.val < outer.val ∧ inner ≠ .root := by
  have child_lt :
      ∀ {parent child : NodeIndex},
        parent ≠ .root →
        child ∈ tree.children parent →
        child.val < parent.val ∧ child ≠ .root := by
    intro parent child parentInner isChild
    obtain ⟨node, found, listed⟩ := mem_children_iff.mp isChild
    refine ⟨parse_child_lt parsed parentInner found listed, ?_⟩
    rintro rfl
    exact absurd (parse_child_bounds parsed isChild).1 (by decide)
  induction isBelow with
  | single isChild => exact child_lt notRoot isChild
  | tail _ isChild inductionHypothesis =>
      obtain ⟨middleLt, middleInner⟩ := inductionHypothesis
      obtain ⟨innerLt, innerInner⟩ := child_lt middleInner isChild
      exact ⟨Nat.lt_trans innerLt middleLt, innerInner⟩

/-- A `return` of a body is reached when the body itself does not return on its own. -/
theorem ReturnsFrom.reaches
    (returns : tree.ReturnsFrom body node value)
    (opened : ¬tree.HasTag body returningTags) :
    tree.Reaches body node value := by
  have path :
      ∀ {outer},
        tree.IsBelow outer node →
        outer = body ∨ tree.IsBelow body outer →
        Relation.ReflTransGen tree.Opens outer node := by
    intro outer isBelow
    have outer_opened :
        ∀ {outer},
          tree.IsBelow outer node →
          outer = body ∨ tree.IsBelow body outer →
          ¬tree.HasTag outer returningTags := by
      rintro _ above (rfl | below)
      · exact opened
      · exact returns.none_between _ below above
    induction isBelow using Relation.TransGen.head_induction_on with
    | single isChild =>
        intro place
        exact .single ⟨outer_opened (.single isChild) place, isChild⟩
    | head isChild isBelow inductionHypothesis =>
        intro place
        refine .head ⟨outer_opened (.head isChild isBelow) place, isChild⟩
          (inductionHypothesis (.inr ?_))
        rcases place with rfl | below
        · exact .single isChild
        · exact .tail below isChild
  exact ⟨path returns.isBelow (.inl rfl), returns.isReturn, returns.isOperand⟩

/-- No node on the way of the search returns on its own. -/
theorem not_returning_of_between
    {between : NodeIndex}
    (parsed : parse source = .ok tree)
    (notRoot : body ≠ .root)
    (path : Relation.ReflTransGen tree.Opens body node)
    (below : tree.IsBelow body between)
    (above : tree.IsBelow between node) :
    ¬tree.HasTag between returningTags := by
  induction path with
  | refl =>
      obtain ⟨betweenLt, betweenInner⟩ := below.lt parsed notRoot
      exact absurd (above.lt parsed betweenInner).1 (Nat.lt_asymm betweenLt)
  | tail _ opens inductionHypothesis =>
      cases above with
      | single isChild => exact parse_parent_unique parsed opens.2 isChild ▸ opens.1
      | tail above isChild =>
          obtain rfl := parse_parent_unique parsed opens.2 isChild
          exact inductionHypothesis above

theorem Reaches.isBelow
    (reaches : tree.Reaches index node value)
    (distinct : node ≠ index) :
    tree.IsBelow index node := by
  have opens_le : tree.Opens ≤ fun parent child => child ∈ tree.children parent :=
    fun _ _ opens => opens.2
  rcases Relation.reflTransGen_iff_eq_or_transGen.mp reaches.path with same | path
  · exact absurd same distinct
  · exact Relation.TransGen.mono opens_le _ _ path

/-- A `return` that is reached from a node of another tag is one of its `return`s. -/
theorem Reaches.returnsFrom
    (parsed : parse source = .ok tree)
    (notRoot : body ≠ .root)
    (reaches : tree.Reaches body node value)
    (otherTag : tree.tag? body ≠ some .returnExpr) :
    tree.ReturnsFrom body node value := by
  have distinct : node ≠ body := by
    rintro rfl
    exact otherTag reaches.isReturn
  exact ⟨reaches.isBelow distinct, reaches.isReturn, reaches.isOperand, fun between below above =>
    not_returning_of_between parsed notRoot reaches.path below above⟩

/-- What is reached from a node that is no such `return` itself is reached from a child. -/
theorem reaches_iff_of_opened
    (opened : ¬tree.HasTag index returningTags)
    (otherTag : tree.tag? index ≠ some .returnExpr) :
    tree.Reaches index node value ↔
      ∃ child ∈ tree.children index, tree.Reaches child node value := by
  constructor
  · rintro ⟨path, isReturn, isOperand⟩
    rcases path.cases_head with rfl | ⟨child, opens, path⟩
    · exact absurd isReturn otherTag
    · exact ⟨child, opens.2, path, isReturn, isOperand⟩
  · rintro ⟨child, isChild, path, isReturn, isOperand⟩
    exact ⟨.head ⟨opened, isChild⟩ path, isReturn, isOperand⟩

/-- Nothing is reached from a node that returns on its own. -/
theorem not_reaches_of_returning
    (isReturning : tree.HasTag index returningTags) :
    ¬tree.Reaches index node value := by
  rintro ⟨path, isReturn, -⟩
  rcases path.cases_head with rfl | ⟨child, opens, -⟩
  · obtain ⟨tag, isTag, tagEq⟩ := isReturning
    obtain rfl := Option.some.inj (tagEq.symm.trans isReturn)
    simp [returningTags] at isTag
  · exact opens.1 isReturning

theorem form_of_isReturn
    {found : Node}
    (isNode : tree.node? index = some found)
    (isReturn : tree.tag? index = some .returnExpr) :
    found.form = .returnExpr := by
  rw [tag?, form?, isNode] at isReturn
  cases formEq : found.form <;> simp_all [NodeForm.tag]

/-- A `return` with a child has an operand. -/
theorem parse_exists_operand
    (parsed : parse source = .ok tree)
    (isReturn : tree.tag? index = some .returnExpr)
    (isChild : child ∈ tree.children index) :
    ∃ operand, tree.child? index .operand = some operand := by
  obtain ⟨node, found, listed⟩ := mem_children_iff.mp isChild
  obtain ⟨⟨role, _⟩, isReference, rfl⟩ := List.mem_map.mp listed
  obtain ⟨slot, isSlot, rfl, -⟩ := parse_exists_slot parsed found isReference
  rw [form_of_isReturn found isReturn] at isSlot
  obtain rfl := List.mem_singleton.mp isSlot
  rw [child?, found]
  exact Node.exists_child? isReference

/-- The range of what is reached lies in the range of the node it is reached from. -/
theorem Reaches.covers
    (parsed : parse source = .ok tree)
    (reaches : tree.Reaches index node value) :
    tree.Covers index node := by
  obtain ⟨path, isReturn, -⟩ := reaches
  induction path using Relation.ReflTransGen.head_induction_on with
  | refl =>
      obtain ⟨form, formEq, -⟩ := Option.map_eq_some_iff.mp isReturn
      obtain ⟨node, found, -⟩ := Option.map_eq_some_iff.mp formEq
      exact .refl found
  | head opens _ inductionHypothesis =>
      exact (parse_covers_child parsed opens.2).trans inductionHypothesis

/-- A `return` comes before the `return`s in its operand. -/
theorem mainBefore_of_return
    {other otherValue : NodeIndex}
    (parsed : parse source = .ok tree)
    (notRoot : index ≠ .root)
    (isReturn : tree.tag? index = some .returnExpr)
    (reaches : tree.Reaches index other otherValue)
    (distinct : other ≠ index) :
    tree.MainBefore index other := by
  obtain ⟨outer, inner, outerFound, innerFound, firstLe, -⟩ := reaches.covers parsed
  obtain ⟨_, encloses⟩ := parse_encloses parsed innerFound
  have firstLeMain := encloses.first_le_main
  have outerForm := form_of_isReturn outerFound isReturn
  have innerForm := form_of_isReturn innerFound reaches.isReturn
  have outerMain : outer.main = outer.first := by
    have member := List.mem_of_getElem? (getElem?_innerNodes notRoot outerFound)
    exact ((parse_charges parsed).2 outer member).2 outerForm
  have otherInner := ((reaches.isBelow distinct).lt parsed notRoot).2
  have differs : outer.main ≠ inner.main :=
    parse_main_ne parsed notRoot otherInner outerFound innerFound (outerForm.trans innerForm.symm)
      distinct.symm
  refine ⟨outer, inner, outerFound, innerFound, Nat.lt_of_le_of_ne ?_ fun same => ?_⟩
  · rw [outerMain]
    exact Nat.le_trans firstLe firstLeMain
  · exact differs (congrArg TokenIndex.mk same)

/-- What is reached from an earlier child comes before what is reached from a later one. -/
theorem mainBefore_of_children
    {earlier later other otherValue : NodeIndex}
    {before after : List NodeIndex}
    (parsed : parse source = .ok tree)
    (childrenEq : tree.children index = before ++ earlier :: after)
    (isLater : later ∈ after)
    (reaches : tree.Reaches earlier node value)
    (reachesOther : tree.Reaches later other otherValue) :
    tree.MainBefore node other := by
  obtain ⟨left, leftReturn, leftFound, leftReturnFound, -, lastLe⟩ := reaches.covers parsed
  obtain ⟨right, rightReturn, rightFound, rightReturnFound, firstLe, -⟩ :=
    reachesOther.covers parsed
  have isChild : earlier ∈ tree.children index := by simp [childrenEq]
  obtain ⟨owner, ownerFound, -⟩ := mem_children_iff.mp isChild
  have ordered := List.pairwise_filterMap.mp
    (parse_children_ordered parsed (Array.mem_of_getElem? ownerFound))
  rw [← children_eq ownerFound, childrenEq] at ordered
  have before := (List.pairwise_cons.mp (List.pairwise_append.mp ordered).2.1).1 later isLater
  have leftBefore := before left leftFound right rightFound
  obtain ⟨_, leftEncloses⟩ := parse_encloses parsed leftReturnFound
  obtain ⟨_, rightEncloses⟩ := parse_encloses parsed rightReturnFound
  have mainLeLast := leftEncloses.main_le_last
  have firstLeMain := rightEncloses.first_le_main
  exact ⟨leftReturn, rightReturn, leftReturnFound, rightReturnFound, by omega⟩

theorem firstReturnWithin?_of_return
    {steps : Nat}
    (isReturn : tree.tag? index = some .returnExpr) :
    tree.firstReturnWithin? (steps + 1) index = tree.child? index .operand := by
  rw [firstReturnWithin?, isReturn]

theorem firstReturnWithin?_of_returning
    {steps : Nat}
    (isReturning : tree.HasTag index returningTags) :
    tree.firstReturnWithin? (steps + 1) index = none := by
  obtain ⟨tag, isTag, tagEq⟩ := isReturning
  rw [firstReturnWithin?, tagEq]
  simp only [returningTags, List.mem_cons, List.not_mem_nil, or_false] at isTag
  rcases isTag with rfl | rfl <;> rfl

theorem firstReturnWithin?_of_opened
    {steps : Nat}
    (opened : ¬tree.HasTag index returningTags)
    (otherTag : tree.tag? index ≠ some .returnExpr) :
    tree.firstReturnWithin? (steps + 1) index =
      (tree.children index).findSome? (tree.firstReturnWithin? steps) := by
  rw [firstReturnWithin?]
  split
  case h_1 isReturn => exact absurd isReturn otherTag
  case h_2 isContainer => exact absurd ⟨_, by simp [returningTags], isContainer⟩ opened
  case h_3 isFunction => exact absurd ⟨_, by simp [returningTags], isFunction⟩ opened
  case h_4 => rfl

/-- A child needs one step less than its parent. -/
theorem child_lt_steps
    {steps : Nat}
    (parsed : parse source = .ok tree)
    (notRoot : index ≠ .root)
    (enough : index.val < steps + 1)
    (isChild : child ∈ tree.children index) :
    child ≠ .root ∧ child.val < steps := by
  obtain ⟨childLt, childInner⟩ := IsBelow.lt parsed (.single isChild) notRoot
  exact ⟨childInner, Nat.lt_of_lt_of_le childLt (Nat.le_of_lt_succ enough)⟩

/-- With enough steps the search misses no `return`. -/
theorem parse_not_reaches
    {steps : Nat}
    (parsed : parse source = .ok tree)
    (notRoot : index ≠ .root)
    (enough : index.val < steps)
    (nothing : tree.firstReturnWithin? steps index = none) :
    ¬tree.Reaches index node value := by
  induction steps generalizing index with
  | zero => exact absurd enough (Nat.not_lt_zero _)
  | succ steps inductionHypothesis =>
      intro reaches
      by_cases isReturning : tree.HasTag index returningTags
      · exact not_reaches_of_returning isReturning reaches
      by_cases isReturn : tree.tag? index = some .returnExpr
      · rw [firstReturnWithin?_of_return isReturn] at nothing
        obtain ⟨path, -, isOperand⟩ := reaches
        rcases path.cases_head with rfl | ⟨child, opens, -⟩
        · cases nothing.symm.trans isOperand
        · obtain ⟨operand, isOperand⟩ := parse_exists_operand parsed isReturn opens.2
          cases nothing.symm.trans isOperand
      · rw [firstReturnWithin?_of_opened isReturning isReturn, List.findSome?_eq_none_iff]
          at nothing
        rw [reaches_iff_of_opened isReturning isReturn] at reaches
        obtain ⟨child, isChild, reaches⟩ := reaches
        obtain ⟨childInner, childEnough⟩ := child_lt_steps parsed notRoot enough isChild
        exact inductionHypothesis childInner childEnough (nothing child isChild) reaches

/-- With enough steps the search finds the `return` whose main token comes first. -/
theorem parse_reaches_first
    {steps : Nat}
    (parsed : parse source = .ok tree)
    (notRoot : index ≠ .root)
    (enough : index.val < steps)
    (finds : tree.firstReturnWithin? steps index = some value) :
    ∃ node,
      tree.Reaches index node value ∧
        ∀ other otherValue,
          tree.Reaches index other otherValue →
          other ≠ node →
          tree.MainBefore node other := by
  induction steps generalizing index with
  | zero => exact absurd enough (Nat.not_lt_zero _)
  | succ steps inductionHypothesis =>
      by_cases isReturning : tree.HasTag index returningTags
      · rw [firstReturnWithin?_of_returning isReturning] at finds
        cases finds
      by_cases isReturn : tree.tag? index = some .returnExpr
      · rw [firstReturnWithin?_of_return isReturn] at finds
        exact ⟨index, ⟨.refl, isReturn, finds⟩, fun other otherValue reaches distinct =>
          mainBefore_of_return parsed notRoot isReturn reaches distinct⟩
      rw [firstReturnWithin?_of_opened isReturning isReturn, List.findSome?_eq_some_iff] at finds
      obtain ⟨before, first, after, childrenEq, finds, nothingBefore⟩ := finds
      have isChild : first ∈ tree.children index := by simp [childrenEq]
      obtain ⟨firstInner, firstEnough⟩ := child_lt_steps parsed notRoot enough isChild
      obtain ⟨node, reaches, isFirst⟩ := inductionHypothesis firstInner firstEnough finds
      have reaches_iff :
          ∀ {node value},
            tree.Reaches index node value ↔
              ∃ child ∈ tree.children index, tree.Reaches child node value :=
        reaches_iff_of_opened isReturning isReturn
      refine ⟨node, reaches_iff.mpr ⟨first, isChild, reaches⟩, ?_⟩
      intro other otherValue reachesOther distinct
      obtain ⟨child, isChild, reachesOther⟩ := reaches_iff.mp reachesOther
      obtain ⟨childInner, childEnough⟩ := child_lt_steps parsed notRoot enough isChild
      rw [childrenEq] at isChild
      rcases List.mem_append.mp isChild with isBefore | isChild
      · exact absurd reachesOther
          (parse_not_reaches parsed childInner childEnough (nothingBefore child isBefore))
      rcases List.mem_cons.mp isChild with rfl | isAfter
      · exact isFirst other otherValue reachesOther distinct
      · exact mainBefore_of_children parsed childrenEq isAfter reaches reachesOther

/-- With enough steps the search answers what a search with a stack does. -/
theorem parse_searches
    {steps : Nat}
    {stack : List NodeIndex}
    {answer : Option NodeIndex}
    (parsed : parse source = .ok tree)
    (notRoot : index ≠ .root)
    (enough : index.val < steps)
    (searches : tree.Searches stack answer) :
    tree.Searches (index :: stack) ((tree.firstReturnWithin? steps index).or answer) := by
  induction steps generalizing index stack answer with
  | zero => exact absurd enough (Nat.not_lt_zero _)
  | succ steps inductionHypothesis =>
      by_cases isReturning : tree.HasTag index returningTags
      · rw [firstReturnWithin?_of_returning isReturning]
        exact .passed isReturning searches
      by_cases isReturn : tree.tag? index = some .returnExpr
      · rw [firstReturnWithin?_of_return isReturn]
        cases operand : tree.child? index .operand with
        | none => exact .bare isReturn operand searches
        | some value => exact .found isReturn operand
      rw [firstReturnWithin?_of_opened isReturning isReturn]
      -- The children are visited one after the other, before what is on the stack.
      have children_search :
          ∀ children ⊆ tree.children index,
            tree.Searches (children ++ stack)
              ((children.findSome? (tree.firstReturnWithin? steps)).or answer) := by
        intro children subset
        induction children with
        | nil => exact searches
        | cons child rest restSearches =>
            obtain ⟨isChild, restSubset⟩ := List.cons_subset.mp subset
            obtain ⟨childInner, childEnough⟩ := child_lt_steps parsed notRoot enough isChild
            have childSearches :=
              inductionHypothesis childInner childEnough (restSearches restSubset)
            rw [List.findSome?_cons]
            cases finds : tree.firstReturnWithin? steps child <;> simpa [finds] using childSearches
      exact .opened isReturning isReturn (children_search _ (List.Subset.refl _))

/-- The body of a function is a block. -/
theorem parse_tag_of_body
    {function : NodeIndex}
    (parsed : parse source = .ok tree)
    (isBody : tree.child? function .body = some body) :
    tree.tag? body = some .block := by
  obtain ⟨owner, found, isBody⟩ := Option.bind_eq_some_iff.mp isBody
  obtain ⟨slot, isSlot, roleEq, bodyNode, bodyFound, admitted⟩ :=
    parse_exists_slot parsed found (Node.mem_children_of_child? isBody)
  rw [NodeForm.category_of_body isSlot roleEq] at admitted
  rw [tag?, form?, bodyFound]
  exact congrArg some (beq_iff_eq.mp admitted)

/-- The search of a function body in a parsed tree finds its first `return` with a value. -/
theorem parse_findsFirstReturn
    {function : NodeIndex}
    (parsed : parse source = .ok tree)
    (isBody : tree.child? function .body = some body) :
    tree.FindsFirstReturn body := by
  have isBlock := parse_tag_of_body parsed isBody
  have otherTag : tree.tag? body ≠ some .returnExpr := by
    rw [isBlock]
    nofun
  have opened : ¬tree.HasTag body returningTags := by
    rintro ⟨tag, isTag, tagEq⟩
    obtain rfl := Option.some.inj (isBlock.symm.trans tagEq)
    simp [returningTags] at isTag
  have isChild : body ∈ tree.children function := by
    obtain ⟨owner, found, isBody⟩ := Option.bind_eq_some_iff.mp isBody
    exact mem_children_iff.mpr ⟨owner, found, Node.mem_childIndices_of_child? isBody⟩
  obtain ⟨positive, inside⟩ := parse_child_bounds parsed isChild
  have notRoot : body ≠ .root := by
    rintro rfl
    exact absurd positive (by decide)
  have reaches_iff :
      ∀ {node value}, tree.Reaches body node value ↔ tree.ReturnsFrom body node value :=
    fun {_ _} => ⟨fun reaches => reaches.returnsFrom parsed notRoot otherTag,
      fun returns => returns.reaches opened⟩
  refine .of_outcomes (fun value finds => ?_) (fun misses node value returns => ?_) ?_
  · obtain ⟨node, reaches, isFirst⟩ := parse_reaches_first parsed notRoot inside finds
    exact ⟨node, reaches_iff.mp reaches, fun other otherValue returns =>
      isFirst other otherValue (reaches_iff.mpr returns)⟩
  · exact parse_not_reaches parsed notRoot inside misses (reaches_iff.mpr returns)
  · have searches := parse_searches parsed notRoot inside .nothing
    rwa [Option.or_none] at searches

/-- The `return` of a method is passed over, and a `return` in a branch comes first. -/
theorem parse_findsFirstReturn_branch :
    ∃ tree,
      parse "fn f() type { _ = struct { fn g() u8 { return 1; } }; if (x) {return A;} return B; }" =
          .ok tree ∧
        tree.child? ⟨20⟩ .body = some ⟨19⟩ ∧
          tree.firstReturn? ⟨19⟩ = some ⟨13⟩ ∧ tree.FindsFirstReturn ⟨19⟩ := by
  have facts :
      ((parse
          "fn f() type { _ = struct { fn g() u8 { return 1; } }; if (x) {return A;} return B; }"
        ).toOption.map fun tree => (tree.child? ⟨20⟩ .body, tree.firstReturn? ⟨19⟩)) =
        some (some ⟨19⟩, some ⟨13⟩) := by
    decide +kernel
  obtain ⟨tree, hasTree, factsEq⟩ := Option.map_eq_some_iff.mp facts
  have parsed := eq_ok_of_toOption hasTree
  obtain ⟨isBody, finds⟩ := Prod.mk.inj factsEq
  exact ⟨tree, parsed, isBody, finds, parse_findsFirstReturn parsed isBody⟩

end SyntaxTree

end ZigLint
