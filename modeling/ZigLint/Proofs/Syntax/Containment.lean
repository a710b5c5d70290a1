import Mathlib.Data.List.Pairwise
import ZigLint.Proofs.Syntax.Slots
import ZigLint.Proofs.Token.TextKind

namespace ZigLint

/-!
# Token ranges of parsed nodes

A node covers another one when the range of the other one lies in its own. A node
covers its children, and two children of one node stand apart. The ranges of a
node and its parent may be the same, but not when the node can only be a member:
a container starts with its keyword, and the file ends with a token of its own.
-/

namespace NodeForm

theorem category_ne_file
    {form : NodeForm}
    {power : Nat}
    {slot : Slot}
    (isSlot : slot ∈ form.slots power) :
    slot.category ≠ .file := by
  cases form <;> simp [slots] at isSlot <;> grind [Slot.category]

theorem category_eq_file
    {category : Category}
    {power : Nat}
    (admitted : category.admits power .root = true) :
    category = .file := by
  cases category with
  | file => rfl
  | _ => cases admitted

end NodeForm

namespace SyntaxTree

variable
  {source : String}
  {tree : SyntaxTree}
  {index outer middle inner left right : NodeIndex}
  {node : Node}

/-- The range of the inner node lies in the range of the outer one. -/
def Covers (tree : SyntaxTree) (outer inner : NodeIndex) : Prop :=
  ∃ outerNode innerNode,
    tree.node? outer = some outerNode ∧
      tree.node? inner = some innerNode ∧
        outerNode.first.val ≤ innerNode.first.val ∧ innerNode.last.val ≤ outerNode.last.val

/-- One of the two nodes ends before the other one starts. -/
def Apart (tree : SyntaxTree) (left right : NodeIndex) : Prop :=
  ∃ leftNode rightNode,
    tree.node? left = some leftNode ∧
      tree.node? right = some rightNode ∧
        (leftNode.last.val < rightNode.first.val ∨ rightNode.last.val < leftNode.first.val)

/-- The first token of one node stands before the first token of the other one. -/
def StartsBefore (tree : SyntaxTree) (earlier later : NodeIndex) : Prop :=
  ∃ earlierNode laterNode,
    tree.node? earlier = some earlierNode ∧
      tree.node? later = some laterNode ∧ earlierNode.first.val < laterNode.first.val

theorem covers_iff
    {innerNode outerNode : Node}
    (outerFound : tree.node? outer = some outerNode)
    (innerFound : tree.node? inner = some innerNode) :
    tree.Covers outer inner ↔
      outerNode.first.val ≤ innerNode.first.val ∧ innerNode.last.val ≤ outerNode.last.val := by
  simp [Covers, outerFound, innerFound]

theorem Covers.refl
    (found : tree.node? index = some node) :
    tree.Covers index index :=
  ⟨node, node, found, found, Nat.le_refl _, Nat.le_refl _⟩

theorem Covers.trans
    (covers : tree.Covers outer middle)
    (coversInner : tree.Covers middle inner) :
    tree.Covers outer inner := by
  obtain ⟨outerNode, middleNode, outerFound, middleFound, firstLe, lastLe⟩ := covers
  obtain ⟨middleNode', innerNode, middleFound', innerFound, firstLe', lastLe'⟩ := coversInner
  obtain rfl : middleNode = middleNode' := Option.some.inj (middleFound.symm.trans middleFound')
  exact ⟨outerNode, innerNode, outerFound, innerFound, Nat.le_trans firstLe firstLe',
    Nat.le_trans lastLe' lastLe⟩

theorem Apart.symm
    (apart : tree.Apart left right) :
    tree.Apart right left := by
  obtain ⟨leftNode, rightNode, leftFound, rightFound, isApart⟩ := apart
  exact ⟨rightNode, leftNode, rightFound, leftFound, isApart.symm⟩

instance : Std.Symm tree.Apart :=
  ⟨fun _ _ => Apart.symm⟩

/-- What a node covers stands apart from all that the node stands apart from. -/
theorem Apart.of_covers
    (apart : tree.Apart outer right)
    (covers : tree.Covers outer inner) :
    tree.Apart inner right := by
  obtain ⟨outerNode, rightNode, outerFound, rightFound, isApart⟩ := apart
  obtain ⟨outerNode', innerNode, outerFound', innerFound, firstLe, lastLe⟩ := covers
  obtain rfl : outerNode = outerNode' := Option.some.inj (outerFound.symm.trans outerFound')
  exact ⟨innerNode, rightNode, innerFound, rightFound, by omega⟩

theorem StartsBefore.asymm
    (before : tree.StartsBefore left right) :
    ¬tree.StartsBefore right left := by
  rintro ⟨rightNode', leftNode', rightFound', leftFound', isAfter⟩
  obtain ⟨leftNode, rightNode, leftFound, rightFound, isBefore⟩ := before
  obtain rfl : leftNode = leftNode' := Option.some.inj (leftFound.symm.trans leftFound')
  obtain rfl : rightNode = rightNode' := Option.some.inj (rightFound.symm.trans rightFound')
  omega

/-- A range has a first token, so nodes that stand apart do not cover each other. -/
theorem Apart.not_covers
    (parsed : parse source = .ok tree)
    (apart : tree.Apart outer inner) :
    ¬tree.Covers outer inner := by
  rintro ⟨outerNode', innerNode', outerFound', innerFound', firstLe, lastLe⟩
  obtain ⟨outerNode, innerNode, outerFound, innerFound, isApart⟩ := apart
  obtain rfl : outerNode = outerNode' := Option.some.inj (outerFound.symm.trans outerFound')
  obtain rfl : innerNode = innerNode' := Option.some.inj (innerFound.symm.trans innerFound')
  obtain ⟨children, encloses⟩ := parse_encloses parsed innerFound
  have firstLeMain := encloses.first_le_main
  have mainLeLast := encloses.main_le_last
  omega

/-- A node covers its children. -/
theorem parse_covers_child
    (parsed : parse source = .ok tree)
    (isChild : inner ∈ tree.children outer) :
    tree.Covers outer inner := by
  obtain ⟨outerNode, found, listed⟩ := mem_children_iff.mp isChild
  obtain ⟨innerNode, innerFound, firstLe, lastLe⟩ :=
    parse_child_range parsed (Array.mem_of_getElem? found) listed
  exact ⟨outerNode, innerNode, found, innerFound, firstLe, lastLe⟩

/-- Two children of one node stand apart. -/
theorem parse_siblings_apart
    (parsed : parse source = .ok tree)
    (isChild : left ∈ tree.children outer)
    (isOtherChild : right ∈ tree.children outer)
    (distinct : left ≠ right) :
    tree.Apart left right := by
  obtain ⟨node, found, listed⟩ := mem_children_iff.mp isChild
  rw [children_eq found] at isOtherChild
  have member := Array.mem_of_getElem? found
  have ordered := List.pairwise_filterMap.mp (parse_children_ordered parsed member)
  have apart : node.childIndices.Pairwise tree.Apart := by
    refine ordered.imp_of_mem fun isEarlier isLater before => ?_
    obtain ⟨earlierNode, earlierFound, -⟩ := parse_child_range parsed member isEarlier
    obtain ⟨laterNode, laterFound, -⟩ := parse_child_range parsed member isLater
    exact ⟨earlierNode, laterNode, earlierFound, laterFound,
      .inl (before _ earlierFound _ laterFound)⟩
  exact apart.forall listed isOtherChild distinct

/-- The last token of a source is the end of the file. -/
theorem parse_kindAt_last
    (parsed : parse source = .ok tree) :
    Parser.kindAt tree.kinds (tree.kinds.size - 1) = .eof := by
  obtain ⟨tokens, _, _, scanned, -, rfl⟩ := parse_eq_ok_iff.mp parsed
  obtain ⟨pieces, isCut, rfl⟩ := Token.scan_eq_ok_iff.mp scanned
  obtain ⟨before, tokensEq, -⟩ := isCut.exists_tokens_eq 0
  rw [kindAt_kinds]
  simp [kinds, tokensEq, Token.endOfFile]

/-- The members of a file end before its last token. -/
theorem parse_file_stop_lt
    {members : List Ast}
    {stop : Nat}
    (parsed : parse source = .ok tree)
    (read : Parser.file tree.kinds 0 = .ok (members, stop)) :
    stop < tree.kinds.size := by
  obtain ⟨reads, mayStart, -⟩ := Parser.file_reads members stop read
  obtain ⟨-, -, -, -, -, nonempty, -⟩ := parse_members parsed
  rcases mayStart with rfl | leads
  · exact nonempty
  · refine Nat.lt_of_le_of_ne reads.stop_le_size ?_
    rintro rfl
    rw [parse_kindAt_last parsed] at leads
    cases leads

/-- The root stands for the whole file, whose members have been read in order. -/
theorem parse_root_depicts
    (parsed : parse source = .ok tree) :
    ∃ members stop root,
      Parser.file tree.kinds 0 = .ok (members, stop) ∧
        tree.node? .root = some root ∧
          root.Depicts tree.nodes.toList (.ofFile tree.kinds.size members) := by
  obtain ⟨members, stop, nodes, references, read, -, nodesEq, forest⟩ := parse_members parsed
  refine ⟨members, stop, { toNodeHead := .ofRoot tree.kinds.size, children := references }, read,
    ?_, rfl, forest.roles_references, ?_⟩
  · rw [node?, ← Array.getElem?_toList, nodesEq]
    rfl
  · rw [nodesEq]
    exact forest.headsAt_references (standsAt_cons _ nodes)

/-- Only the root has the form of a root. -/
theorem parse_root_of_form
    (parsed : parse source = .ok tree)
    (found : tree.node? index = some node)
    (isRoot : node.form = .root) :
    index = .root := by
  by_contra notRoot
  obtain ⟨_, _, -, slot, isSlot, -, admitted⟩ := parse_exists_place parsed found notRoot
  rw [isRoot] at admitted
  exact NodeForm.category_ne_file isSlot (NodeForm.category_eq_file admitted)

/-- The members of a file end before the file does. -/
theorem parse_last_lt_root
    {root : Node}
    (parsed : parse source = .ok tree)
    (rootFound : tree.node? .root = some root)
    (found : tree.node? index = some node)
    (isMember : index ∈ root.childIndices) :
    node.last.val < root.last.val := by
  obtain ⟨members, stop, root', read, rootFound', depicts⟩ := parse_root_depicts parsed
  obtain rfl : root = root' := Option.some.inj (rootFound.symm.trans rootFound')
  obtain ⟨node', nested, found', isNested, sameHead⟩ := depicts.child_found isMember
  rw [node?, ← Array.getElem?_toList] at found
  obtain rfl : node = node' := Option.some.inj (found.symm.trans found')
  obtain ⟨reads, -⟩ := Parser.file_reads members stop read
  have stopLt := parse_file_stop_lt parsed read
  have isNested : nested ∈ members := Parser.map_snd_childrenIn .member members ▸ isNested
  have lastLt := (reads.inRow.mem isNested).2.2
  have rootLast : root.last.val = tree.kinds.size - 1 := by
    rw [depicts.head_eq]
    rfl
  rw [sameHead, rootLast]
  omega

/-- A container starts before its members do. -/
theorem parse_container_first_lt
    {kind : ContainerKind}
    {container : Node}
    (parsed : parse source = .ok tree)
    (containerFound : tree.node? outer = some container)
    (isContainer : container.form = .containerDecl kind)
    (found : tree.node? index = some node)
    (isChild : index ∈ container.childIndices) :
    container.first.val < node.first.val := by
  obtain ⟨ast, framed, depicts⟩ := parse_depicts parsed (Array.mem_of_getElem? containerFound)
  obtain ⟨node', nested, found', isNested, sameHead⟩ := depicts.child_found isChild
  rw [node?, ← Array.getElem?_toList] at found
  obtain rfl : node = node' := Option.some.inj (found.symm.trans found')
  cases framed with
  | @node head _ encloses _ =>
      have headEq : container.toNodeHead = head := depicts.head_eq
      have inRow := encloses.opens kind (headEq ▸ isContainer)
      have mainLt := (inRow.mem isNested).1
      have firstLeMain := encloses.first_le_main
      rw [sameHead, headEq]
      omega

/--
What can only be a member is smaller than its owner: it starts after its container does, or
it ends before the file does.
-/
theorem parse_member_within
    (parsed : parse source = .ok tree)
    (found : tree.node? index = some node)
    (isOnlyMember : node.form.isOnlyMember = true) :
    ∃ owner ownerNode,
      tree.node? owner = some ownerNode ∧
        ownerNode.form.hasMembers = true ∧
          index ∈ tree.children owner ∧
            (ownerNode.first.val < node.first.val ∨
              owner = .root ∧ node.last.val < ownerNode.last.val) := by
  obtain ⟨owner, ownerNode, ownerFound, hasMembers, isMember⟩ :=
    parse_exists_owner parsed found isOnlyMember
  have isChild : index ∈ ownerNode.childIndices := List.mem_map_of_mem isMember
  refine ⟨owner, ownerNode, ownerFound, hasMembers, ?_, ?_⟩
  · rw [children_eq ownerFound]
    exact isChild
  · cases formEq : ownerNode.form with
    | root =>
        obtain rfl := parse_root_of_form parsed ownerFound formEq
        exact .inr ⟨rfl, parse_last_lt_root parsed ownerFound found isChild⟩
    | containerDecl kind =>
        exact .inl (parse_container_first_lt parsed ownerFound formEq found isChild)
    | _ => simp [formEq, NodeForm.hasMembers] at hasMembers

end SyntaxTree

end ZigLint
