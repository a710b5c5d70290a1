import ZigLint.Proofs.Syntax.Parents
import ZigLint.Proofs.Syntax.Precedence

namespace ZigLint

/-!
# The slots of the nodes of a parsed tree

The grammar of nested trees says in which slots the children of a form stand, and a
node of the flat list has the children of the nested tree that it depicts, in the
same roles. So a slot for one child always has a child, whatever is a child stands
in a slot of its role and belongs to the category of the slot, and what can only
be a member is one, of a container or of the file.
-/

namespace NodeForm

/-- The forms that stand among the members of a container and nowhere else. -/
def isOnlyMember : NodeForm → Bool
  | .containerField _ | .fnDecl | .testDecl | .usingNamespace => true
  | _ => false

/-- The forms that have members. -/
def hasMembers : NodeForm → Bool
  | .root | .containerDecl _ => true
  | _ => false

variable {form : NodeForm} {power : Nat}

theorem isOnlyMember_iff :
    form.isOnlyMember = true ↔
      form.tag ∈ [.containerField, .fnDecl, .testDecl, .usingNamespace] := by
  cases form <;> simp [isOnlyMember, tag]

theorem category_eq_member
    {category : Category}
    (admitted : category.admits power form = true)
    (isOnlyMember : form.isOnlyMember = true) :
    category = .member := by
  cases form with
  | containerField | fnDecl | testDecl | usingNamespace =>
      cases category with
      | member => rfl
      | _ => cases admitted
  | _ => cases isOnlyMember

theorem slot_of_member
    {slot : Slot}
    (isSlot : slot ∈ form.slots power)
    (forMembers : slot.category = .member) :
    slot.role = .member ∧ form.hasMembers = true := by
  cases form <;> simp [slots] at isSlot <;> grind [Slot.category, Slot.role, hasMembers]

theorem slot_of_tagType
    {slot : Slot}
    (isSlot : slot ∈ form.slots power)
    (forTag : slot.role = .tagType) :
    (∃ kind, form = .containerDecl kind) ∧ slot = .optional .tagType .expr := by
  cases form <;> simp [slots] at isSlot <;> grind [Slot.role]

end NodeForm

namespace Node

variable {node : Node} {role : Role} {child : NodeIndex}

theorem mem_children_of_child?
    (isChild : node.child? role = some child) :
    (role, child) ∈ node.children := by
  obtain ⟨reference, found, rfl⟩ := Option.map_eq_some_iff.mp isChild
  have sameRole : reference.1 = role := by simpa using List.find?_some found
  rw [← sameRole]
  exact List.mem_of_find?_eq_some found

theorem mem_childrenIn_iff : child ∈ node.childrenIn role ↔ (role, child) ∈ node.children := by
  simp [childrenIn]

theorem mem_childIndices_of_child?
    (isChild : node.child? role = some child) :
    child ∈ node.childIndices :=
  List.mem_map_of_mem (mem_children_of_child? isChild)

theorem mem_childIndices_of_childrenIn
    (isChild : child ∈ node.childrenIn role) :
    child ∈ node.childIndices :=
  List.mem_map_of_mem (mem_childrenIn_iff.mp isChild)

theorem exists_child?
    (isChild : (role, child) ∈ node.children) :
    ∃ first, node.child? role = some first := by
  rw [← Option.isSome_iff_exists, child?, Option.isSome_map, List.find?_isSome]
  exact ⟨_, isChild, by simp⟩

/-- The children in a role are all children when there are none in another role. -/
theorem childrenIn_eq_childIndices
    (roles : ∀ child ∈ node.children, child.1 = role) :
    node.childrenIn role = node.childIndices := by
  have all : ∀ child ∈ node.children, (child.1 == role) = true :=
    fun child member => beq_iff_eq.mpr (roles child member)
  rw [childrenIn, List.filter_eq_self.mpr all, childIndices]

theorem childIndices_of_members
    (members : ∀ child ∈ node.children, child.1 = .member) :
    node.childIndices = (node.child? .tagType).toList ++ node.childrenIn .member := by
  have noTag : node.child? .tagType = none := by
    rw [child?, Option.map_eq_none_iff, List.find?_eq_none]
    intro child isChild
    simp [members child isChild]
  rw [noTag, childrenIn_eq_childIndices members]
  rfl

theorem childIndices_of_tag
    {tag : NodeIndex}
    {rest : List (Role × NodeIndex)}
    (childrenEq : node.children = (.tagType, tag) :: rest)
    (members : ∀ child ∈ rest, child.1 = .member) :
    node.childIndices = (node.child? .tagType).toList ++ node.childrenIn .member := by
  have isTag : node.child? .tagType = some tag := by
    simp [child?, childrenEq]
  have all : ∀ child ∈ rest, (child.1 == Role.member) = true :=
    fun child isChild => beq_iff_eq.mpr (members child isChild)
  have rest_eq : node.childrenIn .member = rest.map Prod.snd := by
    rw [childrenIn, childrenEq, List.filter_cons_of_neg (by simp), List.filter_eq_self.mpr all]
  rw [isTag, rest_eq, childIndices, childrenEq]
  rfl

end Node

/-- What fills a place for members has the role of a member. -/
theorem Fits.roles_of_members
    {isOf : Category → Ast → Prop}
    {category : Category}
    {children : List (Role × Ast)}
    (fits : Fits isOf [.many .member category] children) :
    ∀ role ∈ children.map Prod.fst, role = .member := by
  intro role isRole
  obtain ⟨child, isChild, rfl⟩ := List.mem_map.mp isRole
  obtain ⟨slot, isSlot, sameRole, -⟩ := fits.exists_slot isChild
  obtain rfl := List.mem_singleton.mp isSlot
  exact sameRole.symm

namespace Node.Depicts

variable {whole : List Node} {node : Node} {ast : Ast} {role : Role}

/-- The children of a depicting node have the roles and the heads of the nested children. -/
theorem references_eq
    (depicts : node.Depicts whole ast) :
    (node.children.map fun reference =>
        (reference.1, whole[reference.2.val]?.map Node.toNodeHead)) =
      ast.children.map fun child => (child.1, some child.2.head) := by
  have heads := depicts.heads_eq
  rw [headsAt, childIndices, List.map_map] at heads
  rw [← List.zip_map', ← List.zip_map', ← depicts.roles_eq, ← heads]
  rfl

theorem exists_nested
    {child : NodeIndex}
    (depicts : node.Depicts whole ast)
    (isChild : (role, child) ∈ node.children) :
    ∃ nested, (role, nested) ∈ ast.children ∧
      whole[child.val]?.map Node.toNodeHead = some nested.head := by
  have paired := List.mem_map_of_mem
    (f := fun reference => (reference.1, whole[reference.2.val]?.map Node.toNodeHead)) isChild
  rw [depicts.references_eq] at paired
  obtain ⟨⟨_, nested⟩, member, pairEq⟩ := List.mem_map.mp paired
  obtain ⟨rfl, headEq⟩ := Prod.mk.inj pairEq
  exact ⟨nested, member, headEq.symm⟩

theorem exists_reference
    {nested : Ast}
    (depicts : node.Depicts whole ast)
    (isChild : (role, nested) ∈ ast.children) :
    ∃ child, (role, child) ∈ node.children := by
  have isRole : role ∈ node.children.map Prod.fst := by
    rw [depicts.roles_eq]
    exact List.mem_map_of_mem isChild
  obtain ⟨⟨_, child⟩, member, rfl⟩ := List.mem_map.mp isRole
  exact ⟨child, member⟩

end Node.Depicts

namespace SyntaxTree

variable
  {source : String}
  {tree : SyntaxTree}
  {index : NodeIndex}
  {node : Node}
  {role : Role}
  {category : Category}

/-- A node of a parsed tree whose form has a slot for exactly one child has this child. -/
theorem parse_exists_child?
    (parsed : parse source = .ok tree)
    (found : tree.node? index = some node)
    (isSlot : .one role category ∈ node.form.slots (powerAt tree.kinds node.main)) :
    ∃ child, node.child? role = some child := by
  obtain ⟨ast, ⟨_, phrase⟩, depicts⟩ := parse_phrase parsed (Array.mem_of_getElem? found)
  cases phrase with
  | @node _ head children _ fits =>
      have sameHead : node.toNodeHead = head := depicts.head_eq
      rw [sameHead] at isSlot
      obtain ⟨nested, isNested⟩ := fits.exists_child isSlot
      obtain ⟨child, isChild⟩ := depicts.exists_reference isNested
      exact Node.exists_child? isChild

/-- Every child of a node of a parsed tree belongs to the category of a slot of its role. -/
theorem parse_exists_slot
    {child : NodeIndex}
    (parsed : parse source = .ok tree)
    (found : tree.node? index = some node)
    (isChild : (role, child) ∈ node.children) :
    ∃ slot ∈ node.form.slots (powerAt tree.kinds node.main),
      slot.role = role ∧
        ∃ childNode, tree.node? child = some childNode ∧
          slot.category.admits (powerAt tree.kinds childNode.main) childNode.form = true := by
  obtain ⟨ast, ⟨_, phrase⟩, depicts⟩ := parse_phrase parsed (Array.mem_of_getElem? found)
  obtain ⟨nested, isNested, headEq⟩ := depicts.exists_nested isChild
  obtain ⟨childNode, childFound, sameChild⟩ := Option.map_eq_some_iff.mp headEq
  cases phrase with
  | @node _ head children _ fits =>
      have sameHead : node.toNodeHead = head := depicts.head_eq
      obtain ⟨slot, isSlot, sameRole, childPhrase⟩ := fits.exists_slot isNested
      refine ⟨slot, sameHead ▸ isSlot, sameRole, childNode, ?_, ?_⟩
      · rw [node?, ← Array.getElem?_toList]
        exact childFound
      · cases childPhrase with
        | node admitted _ =>
            rw [sameChild]
            exact admitted

/-- Every node but the root belongs to the category of a slot of its parent. -/
theorem parse_exists_place
    (parsed : parse source = .ok tree)
    (found : tree.node? index = some node)
    (notRoot : index ≠ .root) :
    ∃ owner ownerNode,
      tree.node? owner = some ownerNode ∧
        ∃ slot ∈ ownerNode.form.slots (powerAt tree.kinds ownerNode.main),
          (slot.role, index) ∈ ownerNode.children ∧
            slot.category.admits (powerAt tree.kinds node.main) node.form = true := by
  obtain ⟨owner, isChild⟩ :=
    parse_exists_parent parsed notRoot (Array.getElem?_eq_some_iff.mp found).1
  obtain ⟨ownerNode, ownerFound, listed⟩ := mem_children_iff.mp isChild
  obtain ⟨⟨role, _⟩, isReference, rfl⟩ := List.mem_map.mp listed
  obtain ⟨slot, isSlot, rfl, childNode, childFound, admitted⟩ :=
    parse_exists_slot parsed ownerFound isReference
  obtain rfl : node = childNode := Option.some.inj (found.symm.trans childFound)
  exact ⟨owner, ownerNode, ownerFound, slot, isSlot, isReference, admitted⟩

/-- What can only be a member is one, of a container or of the file. -/
theorem parse_exists_owner
    (parsed : parse source = .ok tree)
    (found : tree.node? index = some node)
    (isOnlyMember : node.form.isOnlyMember = true) :
    ∃ owner ownerNode,
      tree.node? owner = some ownerNode ∧
        ownerNode.form.hasMembers = true ∧ (.member, index) ∈ ownerNode.children := by
  have notRoot : index ≠ .root := by
    rintro rfl
    obtain ⟨_, _, _, nodesEq, -⟩ := parse_forest parsed
    rw [node?, ← Array.getElem?_toList, nodesEq] at found
    obtain rfl := Option.some.inj found
    cases isOnlyMember
  obtain ⟨owner, ownerNode, ownerFound, slot, isSlot, isReference, admitted⟩ :=
    parse_exists_place parsed found notRoot
  have forMembers := NodeForm.category_eq_member admitted isOnlyMember
  obtain ⟨roleEq, hasMembers⟩ := NodeForm.slot_of_member isSlot forMembers
  exact ⟨owner, ownerNode, ownerFound, hasMembers, roleEq ▸ isReference⟩

end SyntaxTree

end ZigLint
