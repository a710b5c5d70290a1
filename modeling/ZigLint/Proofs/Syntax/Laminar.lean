import ZigLint.Proofs.Parser.PrimaryPlacement
import ZigLint.Proofs.Syntax.Layout
import ZigLint.Proofs.Token.Cut

namespace ZigLint

/-!
# Parsed node lists are laminar trees

Every node but the root is the child of exactly one node, and indices grow from
children to parents. The token ranges of children lie in the range of their
parent, side by side and in order. Placement in the nested tree gives the
ranges, and the forest layout gives the shape of the flat list.
-/

/-- All references to children in a node list. -/
def childReferences (nodes : Array Node) : List NodeIndex :=
  nodes.toList.flatMap Node.childIndices

/-- The nodes form a tree whose token ranges are nested and ordered. -/
structure IsLaminar (nodes : Array Node) (tokenCount : Nat) : Prop where
  /-- Every node but the root occurs exactly once among all lists of children. -/
  referred_once :
    ∀ index : NodeIndex, index ≠ .root → index.val < nodes.size →
      (childReferences nodes).count index = 1
  /-- The root is nobody's child. -/
  root_not_referred : NodeIndex.root ∉ childReferences nodes
  /-- Children of a node other than the root have smaller indices than the node. -/
  child_lt :
    ∀ (index : NodeIndex) node, index ≠ .root → nodes[index.val]? = some node →
      ∀ child ∈ node.childIndices, child.val < index.val
  /-- The main token of a node lies in the node's range, and the range in the token list. -/
  range :
    ∀ node ∈ nodes,
      node.first.val ≤ node.main.val ∧ node.main.val ≤ node.last.val ∧
        node.last.val < tokenCount
  /-- The range of a child lies in the range of its parent. -/
  child_range :
    ∀ node ∈ nodes, ∀ child ∈ node.childIndices, ∃ childNode,
      nodes[child.val]? = some childNode ∧
        node.first.val ≤ childNode.first.val ∧ childNode.last.val ≤ node.last.val
  /-- The ranges of the children are disjoint and stand in the order of the children. -/
  children_ordered :
    ∀ node ∈ nodes,
      (node.childIndices.filterMap fun child => nodes[child.val]?).Pairwise
        fun earlier later => earlier.last.val < later.first.val

namespace Node.Depicts

variable {whole : List Node} {node : Node} {ast : Ast}

/-- The children of a depicting node have the heads of the nested children. -/
theorem children_heads
    (depicts : node.Depicts whole ast) :
    (node.childIndices.filterMap fun child => whole[child.val]?).map Node.toNodeHead =
      (ast.children.map Prod.snd).map Ast.head := by
  have found := congrArg (List.filterMap id) depicts.heads_eq
  rw [headsAt, List.filterMap_map, List.filterMap_map] at found
  rw [List.map_filterMap, List.map_map]
  exact found.trans (congrFun List.filterMap_eq_map _)

/-- Every reference of a depicting node finds a nested child. -/
theorem child_found
    {child : NodeIndex}
    (depicts : node.Depicts whole ast)
    (isChild : child ∈ node.childIndices) :
    ∃ childNode childAst,
      whole[child.val]? = some childNode ∧
        childAst ∈ ast.children.map Prod.snd ∧ childNode.toNodeHead = childAst.head := by
  have found : whole[child.val]?.map Node.toNodeHead ∈ headsAt whole node.childIndices :=
    List.mem_map_of_mem isChild
  rw [depicts.heads_eq] at found
  obtain ⟨nested, member, headEq⟩ := List.mem_map.mp found
  obtain ⟨childNode, lookup, sameHead⟩ := Option.map_eq_some_iff.mp headEq.symm
  exact ⟨childNode, nested.2, lookup, List.mem_map_of_mem member, sameHead⟩

end Node.Depicts

/-- The root with its members, as one nested tree. -/
def Ast.ofFile (tokenCount : Nat) (members : List Ast) : Ast :=
  .node (.ofRoot tokenCount) (Parser.childrenIn .member members)

/-- The whole file is framed when its members are read in order. -/
theorem framed_ofFile
    {kinds : Array TokenKind}
    {members : List Ast}
    {stop : Nat}
    (reads : Parser.Reads kinds 0 members stop)
    (nonempty : 0 < kinds.size) :
    (Ast.ofFile kinds.size members).Framed kinds := by
  refine .node ⟨Nat.le_refl 0, Nat.zero_le _, ?_, ?_, nofun, nofun, nofun⟩ ?_
  · show kinds.size - 1 < kinds.size
    omega
  · have stopLe := reads.stop_le_size
    rw [Parser.map_snd_childrenIn]
    exact reads.inRow.widen (Nat.le_refl 0) (by show stop ≤ kinds.size - 1 + 1; omega)
  · intro child isChild
    obtain ⟨member, isMember, rfl⟩ := List.mem_map.mp isChild
    exact reads.framed member isMember

namespace SyntaxTree

variable {source : String} {tree : SyntaxTree}

/-- The kinds of the tokens of a tree. -/
def kinds (tree : SyntaxTree) : Array TokenKind :=
  tree.tokens.map Token.kind

theorem kindAt_kinds
    (tree : SyntaxTree)
    (position : Nat) :
    Parser.kindAt tree.kinds position = ((tree.tokens[position]?).map Token.kind).getD .eof := by
  rw [Parser.kindAt, kinds, Array.getD_eq_getD_getElem?, Array.getElem?_map]

/-- The members of a parsed source are laid out as a forest behind the root. -/
theorem parse_members
    (parsed : parse source = .ok tree) :
    ∃ members stop nodes references,
      Parser.file tree.kinds 0 = .ok (members, stop) ∧
        0 < tree.kinds.size ∧
          tree.nodes.toList =
              { toNodeHead := .ofRoot tree.kinds.size, children := references } :: nodes ∧
            Forest 1 (Parser.childrenIn .member members) nodes references := by
  obtain ⟨tokens, members, stop, scanned, read, rfl⟩ := parse_eq_ok_iff.mp parsed
  obtain ⟨nodes, references, nodesEq, forest⟩ :=
    nodesOfMembers_forest tokens.toArray.size members
  refine ⟨members, stop, nodes, references, read, ?_, ?_, forest⟩
  · obtain ⟨pieces, -, rfl⟩ := Token.scan_eq_ok_iff.mp scanned
    have nonempty := List.length_pos_iff.mpr (Piece.tokensFrom_ne_nil 0 pieces)
    simpa [kinds] using nonempty
  · simpa [kinds] using nodesEq

/-- The parts of a parsed tree: its root, and the forest of its members. -/
theorem parse_forest
    (parsed : parse source = .ok tree) :
    ∃ members nodes references,
      tree.nodes.toList =
          { toNodeHead := .ofRoot tree.kinds.size, children := references } :: nodes ∧
        Forest 1 (Parser.childrenIn .member members) nodes references ∧
          (Ast.ofFile tree.kinds.size members).Framed tree.kinds := by
  obtain ⟨members, stop, nodes, references, read, nonempty, nodesEq, forest⟩ :=
    parse_members parsed
  have reads := (Parser.file_reads members stop read).1
  exact ⟨members, nodes, references, nodesEq, forest, framed_ofFile reads nonempty⟩

/--
Every node of a parsed tree stands for a nested node, which has what the whole file has
and hands down to its nodes.
-/
theorem parse_depicts_of
    {good : Ast → Prop}
    {node : Node}
    (parsed : parse source = .ok tree)
    (handsDown : ∀ ast, good ast → ∀ child ∈ ast.children, good child.2)
    (fileGood :
      ∀ members stop, Parser.file tree.kinds 0 = .ok (members, stop) →
        good (Ast.ofFile tree.kinds.size members))
    (member : node ∈ tree.nodes) :
    ∃ ast : Ast, good ast ∧ node.Depicts tree.nodes.toList ast := by
  obtain ⟨members, stop, nodes, references, read, -, nodesEq, forest⟩ := parse_members parsed
  have stands : StandsAt tree.nodes.toList 1 nodes := nodesEq ▸ standsAt_cons _ nodes
  have wholeGood := fileGood members stop read
  rw [← Array.mem_toList_iff, nodesEq] at member
  rcases List.mem_cons.mp member with rfl | member
  · exact ⟨_, wholeGood, rfl, forest.roles_references, forest.headsAt_references stands⟩
  · exact forest.depicts stands handsDown (handsDown _ wholeGood) member

/-- Every node of a parsed tree stands for a framed nested node. -/
theorem parse_depicts
    {node : Node}
    (parsed : parse source = .ok tree)
    (member : node ∈ tree.nodes) :
    ∃ ast : Ast, ast.Framed tree.kinds ∧ node.Depicts tree.nodes.toList ast := by
  obtain ⟨-, -, -, -, -, nonempty, -⟩ := parse_members parsed
  refine parse_depicts_of parsed ?_ (fun members stop read => ?_) member
  · rintro _ ⟨_, childrenFramed⟩
    exact childrenFramed
  · exact framed_ofFile (Parser.file_reads members stop read).1 nonempty

/-- The references to children are all indices but that of the root, each of them once. -/
theorem parse_childReferences
    (parsed : parse source = .ok tree) :
    (childReferences tree.nodes).Nodup ∧
      ∀ index : NodeIndex,
        index ∈ childReferences tree.nodes ↔ 1 ≤ index.val ∧ index.val < tree.nodes.size := by
  obtain ⟨members, nodes, references, nodesEq, forest, -⟩ := parse_forest parsed
  have perm :
      (childReferences tree.nodes).Perm ((List.range' 1 nodes.length).map NodeIndex.mk) := by
    rw [childReferences, nodesEq, List.flatMap_cons]
    exact forest.perm_indices
  have sizeEq : tree.nodes.size = 1 + nodes.length := by
    rw [← Array.length_toList, nodesEq, List.length_cons, Nat.add_comm]
  constructor
  · rw [perm.nodup_iff]
    exact List.Pairwise.map _ (fun _ _ distinct same => distinct (NodeIndex.mk.inj same))
      List.nodup_range'
  · intro index
    rw [perm.mem_iff, List.mem_map, sizeEq]
    constructor
    · rintro ⟨position, bounds, rfl⟩
      exact List.mem_range'_1.mp bounds
    · intro bounds
      exact ⟨index.val, List.mem_range'_1.mpr bounds, rfl⟩

/-- The children of a node other than the root come before it. -/
theorem parse_child_lt
    {index child : NodeIndex}
    {node : Node}
    (parsed : parse source = .ok tree)
    (notRoot : index ≠ .root)
    (found : tree.nodes[index.val]? = some node)
    (isChild : child ∈ node.childIndices) :
    child.val < index.val := by
  obtain ⟨members, nodes, references, nodesEq, forest, -⟩ := parse_forest parsed
  obtain ⟨position⟩ := index
  cases position with
  | zero => exact (notRoot rfl).elim
  | succ before =>
      rw [← Array.getElem?_toList, nodesEq, List.getElem?_cons_succ] at found
      have := forest.child_lt found isChild
      show child.val < before + 1
      omega

/-- The range of a child lies in the range of its parent. -/
theorem parse_child_range
    {node : Node}
    {child : NodeIndex}
    (parsed : parse source = .ok tree)
    (member : node ∈ tree.nodes)
    (isChild : child ∈ node.childIndices) :
    ∃ childNode,
      tree.nodes[child.val]? = some childNode ∧
        node.first.val ≤ childNode.first.val ∧ childNode.last.val ≤ node.last.val := by
  obtain ⟨ast, framed, depicts⟩ := parse_depicts parsed member
  obtain ⟨childNode, childAst, found, isNested, sameHead⟩ := depicts.child_found isChild
  cases framed with
  | node encloses _ =>
      obtain ⟨firstLe, -, lastLt⟩ := encloses.children_inRow.mem isNested
      refine ⟨childNode, by rw [← Array.getElem?_toList]; exact found, ?_⟩
      rw [depicts.head_eq, sameHead]
      exact ⟨firstLe, Nat.le_of_lt_succ lastLt⟩

/-- The ranges of the children are disjoint and stand in the order of the children. -/
theorem parse_children_ordered
    {node : Node}
    (parsed : parse source = .ok tree)
    (member : node ∈ tree.nodes) :
    (node.childIndices.filterMap fun child => tree.nodes[child.val]?).Pairwise
      fun earlier later => earlier.last.val < later.first.val := by
  obtain ⟨ast, framed, depicts⟩ := parse_depicts parsed member
  cases framed with
  | node encloses _ =>
      have ordered :
          ((node.childIndices.filterMap fun child => tree.nodes.toList[child.val]?).map
            Node.toNodeHead).Pairwise fun earlier later =>
              earlier.last.val < later.first.val := by
        rw [depicts.children_heads, List.pairwise_map]
        exact encloses.children_inRow.pairwise
      rw [List.pairwise_map] at ordered
      simpa only [Array.getElem?_toList] using ordered

/-- The node list of every source that can be parsed is a laminar tree. -/
theorem parse_isLaminar
    (parsed : parse source = .ok tree) :
    IsLaminar tree.nodes tree.tokens.size := by
  obtain ⟨referencesNodup, mem_references⟩ := parse_childReferences parsed
  refine {
    referred_once := ?_
    root_not_referred := ?_
    child_lt := fun _ _ notRoot found _ => parse_child_lt parsed notRoot found
    range := ?_
    child_range := fun _ member _ isChild => parse_child_range parsed member isChild
    children_ordered := fun _ member => parse_children_ordered parsed member
  }
  · intro index notRoot inside
    have positive : index.val ≠ 0 := fun isZero => notRoot (congrArg NodeIndex.mk isZero)
    rw [referencesNodup.count, if_pos ((mem_references index).mpr ⟨by omega, inside⟩)]
  · rw [mem_references]
    intro bounds
    exact absurd bounds.1 (by decide)
  · intro node member
    obtain ⟨ast, framed, depicts⟩ := parse_depicts parsed member
    cases framed with
    | @node head _ encloses _ =>
        have lastLt : head.last.val < tree.tokens.size := by
          simpa [kinds] using encloses.last_lt_size
        rw [depicts.head_eq]
        exact ⟨encloses.first_le_main, encloses.main_le_last, lastLt⟩

/-- A method with a labelled loop, whose node starts at its label. -/
theorem parse_isLaminar_labelled_loop :
    ∃ tree,
      parse "const A = struct { fn f() void { l: for (x) |y| { break :l; } } };" = .ok tree ∧
        tree.nodes.size = 11 ∧ IsLaminar tree.nodes tree.tokens.size := by
  have sizeEq :
      (parse "const A = struct { fn f() void { l: for (x) |y| { break :l; } } };").toOption.map
          (fun tree => tree.nodes.size) = some 11 := by
    decide +kernel
  obtain ⟨tree, hasTree, sizeEq⟩ := Option.map_eq_some_iff.mp sizeEq
  have parsed := eq_ok_of_toOption hasTree
  exact ⟨tree, parsed, sizeEq, parse_isLaminar parsed⟩

end SyntaxTree

end ZigLint
