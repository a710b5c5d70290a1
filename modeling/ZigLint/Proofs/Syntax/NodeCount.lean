import Mathlib.Algebra.Group.Nat.Defs
import Mathlib.Data.List.Perm.Subperm
import ZigLint.Proofs.Parser.PrimaryCharges
import ZigLint.Proofs.Syntax.Containment

namespace ZigLint

/-!
# How many nodes a parsed tree has

The nodes of a parsed tree, apart from its root, are charged to different halves of
the tokens before the end of the file, so there are at most twice as many of them.
This is why 32 bits suffice for the indices of a source with fewer than 2 ^ 31
tokens: a layout that converts every position of the node list to 32 bits, as
`layOutBy NodeIndex.saturating` does, is the layout of the tree.
-/

/-- The heads of a forest are those of the nested nodes, children before their parent. -/
theorem Forest.heads_eq
    {base : Nat}
    {children : List (Role × Ast)}
    {nodes : List Node}
    {references : List (Role × NodeIndex)}
    (forest : Forest base children nodes references) :
    nodes.map Node.toNodeHead = headsOf children := by
  induction forest with
  | nil => rfl
  | cons _ _ ownHeads laterHeads => simp [headsOf, Ast.heads, ownHeads, laterHeads]

/-- The index for a position that fits into 32 bits is this position. -/
theorem NodeIndex.saturating_eq
    {position : Nat}
    (fits : position ≤ largest) :
    saturating position = ⟨position⟩ := by
  rw [saturating, Nat.min_eq_left fits]

section Layout

mutual

/-- Lay out `ast` like `Ast.layOut`, with `indexAt` as the index of a position in the list. -/
def Ast.layOutBy (indexAt : Nat → NodeIndex) (nodes : Array Node) :
    Ast → Array Node × NodeIndex
  | .node head children =>
      let (nodes, references) := layOutAllBy indexAt nodes children
      let index := indexAt nodes.size
      (nodes.push { toNodeHead := head, children := references }, index)

/-- Lay out a list of children like `layOutAll`, with `indexAt` as the index of a position. -/
def layOutAllBy (indexAt : Nat → NodeIndex) (nodes : Array Node) :
    List (Role × Ast) → Array Node × List (Role × NodeIndex)
  | [] => (nodes, [])
  | (role, child) :: rest =>
      let (nodes, index) := child.layOutBy indexAt nodes
      let (nodes, references) := layOutAllBy indexAt nodes rest
      (nodes, (role, index) :: references)

end

theorem layOutAllBy_cons
    (indexAt : Nat → NodeIndex)
    (nodes : Array Node)
    (role : Role)
    (head : NodeHead)
    (children rest : List (Role × Ast)) :
    layOutAllBy indexAt nodes ((role, .node head children) :: rest) =
      let (own, references) := layOutAllBy indexAt nodes children
      let (all, later) :=
        layOutAllBy indexAt (own.push { toNodeHead := head, children := references }) rest
      (all, (role, indexAt own.size) :: later) :=
  rfl

theorem size_le_layOutAll
    (nodes : Array Node)
    (children : List (Role × Ast)) :
    nodes.size ≤ (layOutAll nodes children).1.size := by
  obtain ⟨added, addedEq, -⟩ := layOutAll_forest nodes children
  rw [← Array.length_toList, ← Array.length_toList, addedEq, List.length_append]
  exact Nat.le_add_right _ _

/-- A layout whose positions are all turned into their own indices is the usual one. -/
theorem layOutAllBy_eq
    {indexAt : Nat → NodeIndex}
    (nodes : Array Node)
    (children : List (Role × Ast))
    (exactly :
      ∀ position < (layOutAll nodes children).1.size, indexAt position = ⟨position⟩) :
    layOutAllBy indexAt nodes children = layOutAll nodes children := by
  match children with
  | [] => rfl
  | (role, .node head grandchildren) :: rest =>
      rw [layOutAll_cons] at exactly
      let own := layOutAll nodes grandchildren
      let all := layOutAll (own.1.push { toNodeHead := head, children := own.2 }) rest
      have exactly : ∀ position < all.1.size, indexAt position = ⟨position⟩ := exactly
      have ownLt : own.1.size < all.1.size := by
        have pushedLe := size_le_layOutAll (own.1.push ⟨head, own.2⟩) rest
        rwa [Array.size_push] at pushedLe
      have ownEq : layOutAllBy indexAt nodes grandchildren = own :=
        layOutAllBy_eq nodes grandchildren fun position lt =>
          exactly position (Nat.lt_trans lt ownLt)
      have restEq := layOutAllBy_eq (own.1.push ⟨head, own.2⟩) rest exactly
      rw [layOutAllBy_cons, layOutAll_cons, ownEq]
      simp only [restEq, exactly _ ownLt]
      rfl
  termination_by sizeOf children

/-- The node list of a file, with `indexAt` as the index of a position in the list. -/
def nodesOfMembersBy
    (indexAt : Nat → NodeIndex)
    (tokenCount : Nat)
    (members : List Ast) :
    Array Node :=
  let head := NodeHead.ofRoot tokenCount
  let (nodes, references) :=
    layOutAllBy indexAt #[{ toNodeHead := head, children := [] }]
      (Parser.childrenIn .member members)
  nodes.set! 0 { toNodeHead := head, children := references }

theorem nodesOfMembersBy_eq
    {indexAt : Nat → NodeIndex}
    {tokenCount : Nat}
    {members : List Ast}
    (exactly :
      ∀ position < (nodesOfMembers tokenCount members).size, indexAt position = ⟨position⟩) :
    nodesOfMembersBy indexAt tokenCount members = nodesOfMembers tokenCount members := by
  have sizeEq :
      (nodesOfMembers tokenCount members).size =
        (layOutAll #[{ toNodeHead := .ofRoot tokenCount, children := [] }]
          (Parser.childrenIn .member members)).1.size := by
    simp [nodesOfMembers]
  rw [sizeEq] at exactly
  rw [nodesOfMembersBy, layOutAllBy_eq _ _ exactly, nodesOfMembers]

end Layout

namespace SyntaxTree

variable {source : String} {tree : SyntaxTree}

/-- The nodes of a tree behind its root. -/
def innerNodes (tree : SyntaxTree) : List Node :=
  tree.nodes.toList.tail

/--
The nodes of a tree are bounded by its tokens, and 32 bits suffice for their indices when
there are fewer than 2 ^ 31 tokens.
-/
structure BoundsNodes (tree : SyntaxTree) : Prop where
  size_le : tree.nodes.size ≤ 2 * tree.tokens.size - 1
  at_most_two :
    ∀ token, (tree.innerNodes.filter fun node => node.main = token).length ≤ 2
  not_at_end : ∀ node ∈ tree.innerNodes, tree.tokenKind node.main ≠ .eof
  one_shares :
    tree.innerNodes.Pairwise fun earlier later =>
      earlier.main = later.main →
      earlier.form.sharesMain ≠ later.form.sharesMain
  index_exact :
    tree.tokens.size < 2 ^ 31 →
    ∀ position < tree.nodes.size, NodeIndex.saturating position = ⟨position⟩
  index_injective :
    tree.tokens.size < 2 ^ 31 →
    ∀ one < tree.nodes.size, ∀ other < tree.nodes.size,
      NodeIndex.saturating one = NodeIndex.saturating other → one = other
  layout_exact :
    tree.tokens.size < 2 ^ 31 →
    ∃ members stop,
      Parser.file tree.kinds 0 = .ok (members, stop) ∧
        tree.nodes = nodesOfMembersBy NodeIndex.saturating tree.tokens.size members

/-- The nodes behind the root are charged to halves of the tokens before the last one. -/
theorem parse_charges
    (parsed : parse source = .ok tree) :
    (tree.innerNodes.map fun node => node.charge).Nodup ∧
      ∀ node ∈ tree.innerNodes,
        node.charge < 2 * (tree.tokens.size - 1) ∧
          (node.form = .returnExpr → node.main = node.first) := by
  obtain ⟨members, stop, nodes, references, read, -, nodesEq, forest⟩ := parse_members parsed
  have spent := Parser.file_spends members stop read
  have stopLt := parse_file_stop_lt parsed read
  have innerEq : tree.innerNodes = nodes := congrArg List.tail nodesEq
  have headsEq : nodes.map Node.toNodeHead = members.flatMap Ast.heads := by
    rw [forest.heads_eq, headsOf_eq, Parser.map_snd_childrenIn]
  have chargesEq : nodes.map (fun node => node.charge) = charges members := by
    rw [charges, ← headsEq, List.map_map]
    rfl
  rw [innerEq]
  refine ⟨chargesEq ▸ spent.charged.nodup, fun node member => ⟨?_, ?_⟩⟩
  · have isCharge : node.charge ∈ charges members :=
      chargesEq ▸ List.mem_map_of_mem member
    have bounds := spent.charged.bounds _ isCharge
    have sizeEq : tree.kinds.size = tree.tokens.size := Array.size_map
    omega
  · have isHead : node.toNodeHead ∈ members.flatMap Ast.heads :=
      headsEq ▸ List.mem_map_of_mem member
    exact spent.charged.returns _ isHead

/-- Every node behind the root has its main token before the last token. -/
theorem parse_main_lt
    {node : Node}
    (parsed : parse source = .ok tree)
    (member : node ∈ tree.innerNodes) :
    node.main.val < tree.tokens.size - 1 := by
  have charge_lt := ((parse_charges parsed).2 node member).1
  have charge_div := node.toNodeHead.charge_div_two
  omega

/-- Only the last token is the end of the file. -/
theorem parse_tokenKind_ne_eof
    {token : TokenIndex}
    (parsed : parse source = .ok tree)
    (before : token.val < tree.tokens.size - 1) :
    tree.tokenKind token ≠ .eof := by
  obtain ⟨tokens, _, _, scanned, -, rfl⟩ := parse_eq_ok_iff.mp parsed
  obtain ⟨pieces, isCut, rfl⟩ := Token.scan_eq_ok_iff.mp scanned
  obtain ⟨others, tokensEq, notEnd⟩ := isCut.exists_tokens_eq 0
  have before : token.val < others.length := by simpa [tokensEq] using before
  have found : (Piece.tokensFrom 0 pieces).toArray[token.val]? = some others[token.val] := by
    rw [tokensEq, List.getElem?_toArray, List.getElem?_append_left before]
    exact List.getElem?_eq_getElem before
  rw [tokenKind, found]
  exact notEnd _ (List.getElem_mem before)

/-- Two nodes behind the root that have one main token differ in whether they share it. -/
theorem parse_one_shares
    (parsed : parse source = .ok tree) :
    tree.innerNodes.Pairwise fun earlier later =>
      earlier.main = later.main →
      earlier.form.sharesMain ≠ later.form.sharesMain := by
  refine (List.pairwise_map.mp (parse_charges parsed).1).imp fun {earlier later} differs => ?_
  intro sameMain sameShares
  apply differs
  rw [NodeHead.charge, NodeHead.charge, sameMain, sameShares]

/-- The node at an index other than that of the root is one of the nodes behind it. -/
theorem getElem?_innerNodes
    {index : NodeIndex}
    {node : Node}
    (notRoot : index ≠ .root)
    (found : tree.node? index = some node) :
    tree.innerNodes[index.val - 1]? = some node := by
  have positive : index.val ≠ 0 := fun isZero => notRoot (NodeIndex.val_inj.mp isZero)
  rw [innerNodes, List.getElem?_tail, Nat.sub_add_cancel (Nat.pos_of_ne_zero positive),
    Array.getElem?_toList]
  exact found

/-- Two different nodes whose main tokens are not shared have different main tokens. -/
theorem parse_main_ne
    {one other : NodeIndex}
    {oneNode otherNode : Node}
    (parsed : parse source = .ok tree)
    (oneInner : one ≠ .root)
    (otherInner : other ≠ .root)
    (oneFound : tree.node? one = some oneNode)
    (otherFound : tree.node? other = some otherNode)
    (sameForm : oneNode.form = otherNode.form)
    (distinct : one ≠ other) :
    oneNode.main ≠ otherNode.main := by
  intro sameMain
  have sameCharge : oneNode.charge = otherNode.charge := by
    rw [NodeHead.charge, NodeHead.charge, sameForm, sameMain]
  have chargeAt :
      ∀ {index : NodeIndex} {node : Node},
        index ≠ .root →
        tree.node? index = some node →
        (tree.innerNodes.map fun node => node.charge)[index.val - 1]? = some node.charge := by
    intro index node notRoot found
    rw [List.getElem?_map, getElem?_innerNodes notRoot found, Option.map_some]
  have oneCharge := chargeAt oneInner oneFound
  have otherCharge := chargeAt otherInner otherFound
  rw [sameCharge, ← otherCharge] at oneCharge
  have oneInside := (List.getElem?_eq_some_iff.mp (chargeAt oneInner oneFound)).1
  have samePlace := (List.getElem?_inj oneInside (parse_charges parsed).1).mp oneCharge
  apply distinct
  have onePositive : one.val ≠ 0 := fun isZero => oneInner (NodeIndex.val_inj.mp isZero)
  have otherPositive : other.val ≠ 0 := fun isZero => otherInner (NodeIndex.val_inj.mp isZero)
  exact NodeIndex.val_inj.mp (by omega)

/-- The root is one node more than the nodes behind it. -/
theorem parse_size_eq
    (parsed : parse source = .ok tree) :
    tree.nodes.size = tree.innerNodes.length + 1 := by
  obtain ⟨_, _, nodes, _, -, -, nodesEq, -⟩ := parse_members parsed
  rw [innerNodes, ← Array.length_toList, nodesEq]
  rfl

/-- A tree has less than two nodes for every token. -/
theorem parse_size_le
    (parsed : parse source = .ok tree) :
    tree.nodes.size ≤ 2 * tree.tokens.size - 1 := by
  obtain ⟨nodup, charged⟩ := parse_charges parsed
  have inRange :
      tree.innerNodes.map (fun node => node.charge) ⊆
        List.range (2 * (tree.tokens.size - 1)) := by
    intro charge isCharge
    obtain ⟨node, member, rfl⟩ := List.mem_map.mp isCharge
    exact List.mem_range.mpr (charged node member).1
  have length_le := (List.subperm_of_subset nodup inRange).length_le
  rw [List.length_map, List.length_range] at length_le
  obtain ⟨_, _, _, _, -, nonempty, -⟩ := parse_members parsed
  have sizeEq : tree.kinds.size = tree.tokens.size := Array.size_map
  rw [parse_size_eq parsed]
  omega

/-- The nodes with one main token are charged to its two halves. -/
theorem parse_length_filter_main_le
    (parsed : parse source = .ok tree)
    (token : TokenIndex) :
    (tree.innerNodes.filter fun node => node.main = token).length ≤ 2 := by
  let sharing := tree.innerNodes.filter fun node => node.main = token
  have nodup : (sharing.map fun node => node.charge).Nodup :=
    (parse_charges parsed).1.sublist (List.filter_sublist.map _)
  have halves :
      sharing.map (fun node => node.charge) ⊆ [2 * token.val, 2 * token.val + 1] := by
    intro charge isCharge
    obtain ⟨node, member, rfl⟩ := List.mem_map.mp isCharge
    obtain ⟨-, isMain⟩ := List.mem_filter.mp member
    obtain rfl := of_decide_eq_true isMain
    unfold NodeHead.charge
    split <;> simp
  have length_le := (List.subperm_of_subset nodup halves).length_le
  rwa [List.length_map] at length_le

/-- The nodes of a parsed tree are bounded by its tokens. -/
theorem parse_boundsNodes
    (parsed : parse source = .ok tree) :
    tree.BoundsNodes := by
  have size_le := parse_size_le parsed
  have index_exact :
      tree.tokens.size < 2 ^ 31 →
      ∀ position < tree.nodes.size, NodeIndex.saturating position = ⟨position⟩ := by
    intro fewTokens position inside
    exact NodeIndex.saturating_eq (by unfold NodeIndex.largest; omega)
  exact {
    size_le
    at_most_two := parse_length_filter_main_le parsed
    not_at_end := fun node member => parse_tokenKind_ne_eof parsed (parse_main_lt parsed member)
    one_shares := parse_one_shares parsed
    index_exact
    index_injective := by
      intro fewTokens one oneInside other otherInside same
      rw [index_exact fewTokens one oneInside, index_exact fewTokens other otherInside] at same
      exact congrArg NodeIndex.val same
    layout_exact := by
      intro fewTokens
      obtain ⟨tokens, members, stop, -, read, rfl⟩ := parse_eq_ok_iff.mp parsed
      exact ⟨members, stop, read, (nodesOfMembersBy_eq (index_exact fewTokens)).symm⟩
  }

/-- The keyword of a function and the type of its nameless parameter are shared. -/
theorem parse_boundsNodes_nameless_parameter :
    ∃ tree,
      parse "fn f(u8) void {}" = .ok tree ∧
        tree.tokens.size = 9 ∧
          tree.innerNodes.map (fun node => node.main.val) = [3, 3, 5, 0, 6, 0] ∧
            tree.BoundsNodes := by
  have facts :
      (parse "fn f(u8) void {}").toOption.map
          (fun tree => (tree.tokens.size, tree.innerNodes.map fun node => node.main.val)) =
        some (9, [3, 3, 5, 0, 6, 0]) := by
    decide +kernel
  obtain ⟨tree, parsed, factsEq⟩ := Option.map_eq_some_iff.mp facts
  have parsed := eq_ok_of_toOption parsed
  obtain ⟨size_eq, mains_eq⟩ := Prod.mk.inj factsEq
  exact ⟨tree, parsed, size_eq, mains_eq, parse_boundsNodes parsed⟩

end SyntaxTree

end ZigLint
