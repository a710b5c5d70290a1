import ZigLint.Proofs.Syntax.Laminar

namespace ZigLint

/-!
# Declared names and identifiers

No two nodes declare the same name token, and no identifier stands on one. A name
stands in the range of its node and before all children of the node, and an
identifier has no children, so ranges that are nested and ordered keep the tokens
of different nodes apart. The name of a function is declared by its prototype,
which is the child of one function only.
-/

/-- The token that a node has to itself: the name it declares, or the identifier it is. -/
def NodeHead.ownToken? (head : NodeHead) : Option TokenIndex :=
  if head.form = .identifier then some head.main else head.form.name?

theorem NodeHead.ownToken?_of_name?
    {head : NodeHead}
    {name : TokenIndex}
    (named : head.form.name? = some name) :
    head.ownToken? = some name := by
  rw [ownToken?, if_neg, named]
  intro isIdentifier
  rw [isIdentifier] at named
  cases named

/-- The tokens that nodes have to themselves, in the order of the nodes. -/
def ownTokens (nodes : List Node) : List TokenIndex :=
  nodes.flatMap fun node => node.ownToken?.toList

/-- A token of its own stands in the range of the node and before all its children. -/
theorem Ast.Encloses.ownToken_bounds
    {kinds : Array TokenKind}
    {head : NodeHead}
    {children : List Ast}
    {token : TokenIndex}
    (encloses : Encloses kinds head children)
    (owned : head.ownToken? = some token) :
    head.first.val ≤ token.val ∧ InRow (token.val + 1) children (head.last.val + 1) := by
  unfold NodeHead.ownToken? at owned
  split at owned
  · rename_i isIdentifier
    obtain ⟨firstEq, lastEq, rfl⟩ := encloses.leaf isIdentifier
    cases owned
    rw [firstEq, lastEq]
    exact ⟨Nat.le_refl _, Nat.le_refl _⟩
  · have declares := encloses.declares token owned
    exact ⟨declares.first_le_name, declares.children_after⟩

/-- The token is an identifier that does not follow a point. -/
structure IsName (kinds : Array TokenKind) (name : TokenIndex) : Prop where
  isIdentifier : Parser.kindAt kinds name.val = .identifier
  mayStart : NameMayStart kinds name.val

/-- Members of a duplicate-free join come from one place of the joined list. -/
theorem getElem?_inj_of_flatMap_nodup
    {parts : α → List β}
    {items : List α}
    {first second : Nat}
    {firstItem secondItem : α}
    {value : β}
    (noDuplicates : (items.flatMap parts).Nodup)
    (firstFound : items[first]? = some firstItem)
    (secondFound : items[second]? = some secondItem)
    (firstHas : value ∈ parts firstItem)
    (secondHas : value ∈ parts secondItem) :
    first = second := by
  obtain ⟨-, apart⟩ := List.pairwise_flatMap.mp noDuplicates
  obtain ⟨firstLt, rfl⟩ := List.getElem?_eq_some_iff.mp firstFound
  obtain ⟨secondLt, rfl⟩ := List.getElem?_eq_some_iff.mp secondFound
  rw [List.pairwise_iff_getElem] at apart
  rcases Nat.lt_trichotomy first second with isBefore | same | isAfter
  · exact (apart first second firstLt secondLt isBefore value firstHas value secondHas rfl).elim
  · exact same
  · exact (apart second first secondLt firstLt isAfter value secondHas value firstHas rfl).elim

namespace Forest

variable
  {kinds : Array TokenKind}
  {base start stop : Nat}
  {children : List (Role × Ast)}
  {nodes : List Node}
  {references : List (Role × NodeIndex)}

/-- The tokens that nodes of a forest have to themselves lie where its trees stand. -/
theorem ownTokens_bounds
    {token : TokenIndex}
    (forest : Forest base children nodes references)
    (inRow : Ast.InRow start (children.map Prod.snd) stop)
    (framed : ∀ child ∈ children, child.2.Framed kinds)
    (member : token ∈ ownTokens nodes) :
    start ≤ token.val ∧ token.val < stop := by
  induction forest generalizing start stop with
  | nil => simp [ownTokens] at member
  | @cons _ _ head grandchildren _ own later ownReferences _ _ _ inOwn inLater =>
      obtain ⟨startLe, firstLe, restInRow⟩ := inRow
      have restStop := restInRow.start_le_stop
      have topFramed := framed _ List.mem_cons_self
      have laterFramed := fun child isLater => framed child (List.mem_cons_of_mem _ isLater)
      simp only [ownTokens, List.flatMap_append, List.flatMap_cons, List.mem_append] at member
      cases topFramed with
      | node encloses grandchildrenFramed =>
          rcases member with inOwnTokens | isTop | inLaterTokens
          · obtain ⟨lower, upper⟩ := inOwn encloses.children_inRow grandchildrenFramed inOwnTokens
            exact ⟨Nat.le_trans startLe lower, Nat.lt_of_lt_of_le upper restStop⟩
          · obtain ⟨firstLeToken, childrenAfter⟩ :=
              encloses.ownToken_bounds (Option.mem_toList.mp isTop)
            have tokenLt := childrenAfter.start_le_stop
            exact ⟨Nat.le_trans startLe firstLeToken, Nat.lt_of_lt_of_le tokenLt restStop⟩
          · obtain ⟨lower, upper⟩ := inLater restInRow laterFramed inLaterTokens
            exact ⟨by show start ≤ token.val; omega, upper⟩

/-- No two nodes of a forest have the same token to themselves. -/
theorem ownTokens_nodup
    (forest : Forest base children nodes references)
    (inRow : Ast.InRow start (children.map Prod.snd) stop)
    (framed : ∀ child ∈ children, child.2.Framed kinds) :
    (ownTokens nodes).Nodup := by
  induction forest generalizing start stop with
  | nil => exact .nil
  | @cons _ _ head grandchildren _ own later ownReferences _ ownForest laterForest inOwn inLater =>
      obtain ⟨startLe, firstLe, restInRow⟩ := inRow
      have topFramed := framed _ List.mem_cons_self
      have laterFramed := fun child isLater => framed child (List.mem_cons_of_mem _ isLater)
      cases topFramed with
      | node encloses grandchildrenFramed =>
          simp only [ownTokens, List.flatMap_append, List.flatMap_cons]
          have ownNodup := inOwn encloses.children_inRow grandchildrenFramed
          have laterNodup := inLater restInRow laterFramed
          -- Tokens of later trees stand after the range of this one, and all others in it.
          have laterAfter : ∀ token ∈ ownTokens later, head.last.val < token.val := by
            intro token member
            exact (laterForest.ownTokens_bounds restInRow laterFramed member).1
          have ownBefore : ∀ token ∈ ownTokens own, token.val ≤ head.last.val := by
            intro token member
            exact Nat.le_of_lt_succ (ownForest.ownTokens_bounds encloses.children_inRow
              grandchildrenFramed member).2
          cases owned : head.ownToken? with
          | none =>
              refine List.nodup_append.mpr ⟨ownNodup, laterNodup, ?_⟩
              rintro token inOwnTokens _ inLaterTokens rfl
              have := ownBefore token inOwnTokens
              have := laterAfter token inLaterTokens
              omega
          | some token =>
              obtain ⟨-, childrenAfter⟩ := encloses.ownToken_bounds owned
              have tokenLe := childrenAfter.start_le_stop
              refine List.nodup_append.mpr ⟨ownNodup, List.nodup_cons.mpr ⟨?_, laterNodup⟩, ?_⟩
              · intro inLaterTokens
                have := laterAfter token inLaterTokens
                omega
              · rintro other inOwnTokens _ inRest rfl
                rcases List.mem_cons.mp inRest with rfl | inLaterTokens
                · have := (ownForest.ownTokens_bounds childrenAfter grandchildrenFramed
                    inOwnTokens).1
                  omega
                · have := ownBefore other inOwnTokens
                  have := laterAfter other inLaterTokens
                  omega

end Forest

namespace SyntaxTree

variable {source : String} {tree : SyntaxTree}

/-- No two nodes of a parsed tree have the same token to themselves. -/
theorem ownToken_unique
    {first second : NodeIndex}
    {firstNode secondNode : Node}
    {token : TokenIndex}
    (parsed : parse source = .ok tree)
    (firstFound : tree.node? first = some firstNode)
    (secondFound : tree.node? second = some secondNode)
    (firstOwns : firstNode.ownToken? = some token)
    (secondOwns : secondNode.ownToken? = some token) :
    first = second := by
  obtain ⟨members, nodes, references, nodesEq, forest, framed⟩ := parse_forest parsed
  have tokensNodup : (ownTokens tree.nodes.toList).Nodup := by
    cases framed with
    | node encloses childrenFramed =>
        rw [nodesEq]
        exact forest.ownTokens_nodup encloses.children_inRow childrenFramed
  rw [node?, ← Array.getElem?_toList] at firstFound secondFound
  have same := getElem?_inj_of_flatMap_nodup tokensNodup firstFound secondFound
    (Option.mem_toList.mpr firstOwns) (Option.mem_toList.mpr secondOwns)
  exact congrArg NodeIndex.mk same

/-- Every node of a parsed tree encloses some children. -/
theorem parse_encloses
    {index : NodeIndex}
    {node : Node}
    (parsed : parse source = .ok tree)
    (found : tree.node? index = some node) :
    ∃ children, Ast.Encloses tree.kinds node.toNodeHead children := by
  obtain ⟨ast, framed, depicts⟩ := parse_depicts parsed (Array.mem_of_getElem? found)
  cases framed with
  | node encloses _ =>
      rw [depicts.head_eq]
      exact ⟨_, encloses⟩

/-- The node at `carrier` declares the name; the function at `owner` does so by its prototype. -/
inductive DeclaresName (tree : SyntaxTree) (name : TokenIndex) : (owner : NodeIndex) → Prop where
  | own
      {owner : NodeIndex}
      {node : Node} :
      tree.node? owner = some node →
      node.tag ≠ .fnProto →
      node.form.name? = some name →
      DeclaresName tree name owner
  | byPrototype
      {owner prototype : NodeIndex}
      {node prototypeNode : Node} :
      tree.node? owner = some node →
      node.tag = .fnDecl →
      prototype ∈ node.childIndices →
      tree.node? prototype = some prototypeNode →
      prototypeNode.tag = .fnProto →
      prototypeNode.form.name? = some name →
      DeclaresName tree name owner

/-- No two nodes of a parsed tree declare the same name. -/
theorem DeclaresName.owner_unique
    {name : TokenIndex}
    {first second : NodeIndex}
    (parsed : parse source = .ok tree)
    (firstDeclares : tree.DeclaresName name first)
    (secondDeclares : tree.DeclaresName name second) :
    first = second := by
  obtain ⟨referencesNodup, -⟩ := parse_childReferences parsed
  -- A name is declared by one node only, and this node is a child of one node only.
  have carrier_unique :
      ∀ {left right : NodeIndex} {leftNode rightNode : Node},
        tree.node? left = some leftNode → tree.node? right = some rightNode →
        leftNode.form.name? = some name → rightNode.form.name? = some name →
        left = right := by
    intro left right leftNode rightNode leftFound rightFound leftNames rightNames
    exact ownToken_unique parsed leftFound rightFound (NodeHead.ownToken?_of_name? leftNames)
      (NodeHead.ownToken?_of_name? rightNames)
  cases firstDeclares with
  | own firstFound firstNotPrototype firstNames =>
      cases secondDeclares with
      | own secondFound _ secondNames =>
          exact carrier_unique firstFound secondFound firstNames secondNames
      | byPrototype _ _ _ secondFound isPrototype secondNames =>
          obtain rfl := carrier_unique firstFound secondFound firstNames secondNames
          rw [firstFound] at secondFound
          cases secondFound
          exact (firstNotPrototype isPrototype).elim
  | byPrototype firstOwner _ firstChild firstFound isPrototype firstNames =>
      cases secondDeclares with
      | own secondFound secondNotPrototype secondNames =>
          obtain rfl := carrier_unique firstFound secondFound firstNames secondNames
          rw [firstFound] at secondFound
          cases secondFound
          exact (secondNotPrototype isPrototype).elim
      | byPrototype secondOwner _ secondChild secondFound _ secondNames =>
          obtain rfl := carrier_unique firstFound secondFound firstNames secondNames
          rw [node?, ← Array.getElem?_toList] at firstOwner secondOwner
          have same := getElem?_inj_of_flatMap_nodup referencesNodup firstOwner secondOwner
            firstChild secondChild
          exact congrArg NodeIndex.mk same

/-- A declared name is an identifier that does not follow a point. -/
theorem DeclaresName.isName
    {name : TokenIndex}
    {owner : NodeIndex}
    (parsed : parse source = .ok tree)
    (declares : tree.DeclaresName name owner) :
    IsName tree.kinds name := by
  have name_of_node :
      ∀ {index : NodeIndex} {node : Node},
        tree.node? index = some node → node.form.name? = some name → IsName tree.kinds name := by
    intro index node found named
    obtain ⟨children, encloses⟩ := parse_encloses parsed found
    have declaresAt := encloses.declares name named
    exact ⟨declaresAt.isIdentifier, declaresAt.mayStart⟩
  cases declares with
  | own found _ named => exact name_of_node found named
  | byPrototype _ _ _ found _ named => exact name_of_node found named

/-- An identifier of a parsed tree has no token but its main one. -/
theorem identifier_leaf
    {index : NodeIndex}
    {node : Node}
    (parsed : parse source = .ok tree)
    (found : tree.node? index = some node)
    (isIdentifier : node.form = .identifier) :
    node.first = node.main ∧ node.last = node.main := by
  obtain ⟨children, encloses⟩ := parse_encloses parsed found
  obtain ⟨firstEq, lastEq, -⟩ := encloses.leaf isIdentifier
  exact ⟨firstEq, lastEq⟩

/-- No identifier of a parsed tree stands on a declared name. -/
theorem DeclaresName.ne_identifier
    {name : TokenIndex}
    {owner index : NodeIndex}
    {node : Node}
    (parsed : parse source = .ok tree)
    (declares : tree.DeclaresName name owner)
    (found : tree.node? index = some node)
    (isIdentifier : node.form = .identifier) :
    node.main ≠ name := by
  rintro rfl
  have owns : node.ownToken? = some node.main := if_pos isIdentifier
  have carrier_ne :
      ∀ {carrier : NodeIndex} {carrierNode : Node},
        tree.node? carrier = some carrierNode → carrierNode.form.name? ≠ some node.main := by
    intro carrier carrierNode carrierFound named
    obtain rfl := ownToken_unique parsed carrierFound found (NodeHead.ownToken?_of_name? named) owns
    obtain rfl : carrierNode = node := Option.some.inj (carrierFound.symm.trans found)
    rw [isIdentifier] at named
    cases named
  cases declares with
  | own carrierFound _ named => exact carrier_ne carrierFound named
  | byPrototype _ _ _ carrierFound _ named => exact carrier_ne carrierFound named

end SyntaxTree

end ZigLint
