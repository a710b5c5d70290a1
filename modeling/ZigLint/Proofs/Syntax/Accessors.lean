import ZigLint.Proofs.Syntax.Slots

namespace ZigLint

/-!
# Accessors agree with tags

An accessor answers for the nodes of its tags and for no others, and what it
answers are children of the node and names. That a required part is always there,
and that a part fits its role, follows from the slots of the forms. A field can
only be a member, and only containers and the file have members.
-/

namespace SyntaxTree

variable
  {source : String}
  {tree : SyntaxTree}
  {index : NodeIndex}
  {node : Node}

/-- The node has one of the given tags. -/
def HasTag (tree : SyntaxTree) (index : NodeIndex) (tags : List NodeTag) : Prop :=
  ∃ tag ∈ tags, tree.tag? index = some tag

/-- What the accessors answer for a node fits its tag and its children. -/
structure AccessorsAgree (tree : SyntaxTree) (index : NodeIndex) : Prop where
  binding_iff : (tree.binding? index).isSome ↔ tree.HasTag index [.varDecl]
  prototype_iff : (tree.prototype? index).isSome ↔ tree.HasTag index [.fnProto, .fnDecl]
  container_iff : (tree.container? index).isSome ↔ tree.HasTag index [.containerDecl, .root]
  wrapped_iff :
    (tree.wrapped? index).isSome ↔
      tree.HasTag index [.ptrType, .optionalType, .grouped, .errorUnion]
  operands_iff :
    (tree.operands? index).isSome ↔ tree.HasTag index [.binaryOp, .mergeErrorSets, .assign]
  field_tag : (tree.field? index).isSome → tree.HasTag index [.containerField]
  /-- A binding has an identifier as its name, and its parts are children. -/
  binding_parts :
    ∀ binding, tree.binding? index = some binding →
      tree.tokenKind binding.name = .identifier ∧
        ∀ part, part ∈ binding.type? ∨ part ∈ binding.value? → part ∈ tree.children index
  /-- A field has an identifier as its name, and its parts are children. -/
  field_parts :
    ∀ field, tree.field? index = some field →
      tree.tokenKind field.name = .identifier ∧
        ∀ part, part ∈ field.type? ∨ part ∈ field.value? → part ∈ tree.children index
  /--
  A prototype has an identifier as its name, if any, and a return type. Its parts are
  children of the prototype node, which is the node itself or a child of the function.
  -/
  prototype_parts :
    ∀ prototype, tree.prototype? index = some prototype →
      (∀ name ∈ prototype.name, tree.tokenKind name = .identifier) ∧
        prototype.returnType?.isSome ∧
          ∃ owner,
            tree.HasTag owner [.fnProto] ∧
              (owner = index ∨ tree.HasTag index [.fnDecl] ∧ owner ∈ tree.children index) ∧
                ∀ part, part ∈ prototype.parameters ∨ part ∈ prototype.returnType? →
                  part ∈ tree.children owner
  /-- The members of a container are its children but for a tag before them. -/
  container_parts :
    ∀ container, tree.container? index = some container →
      tree.children index = (tree.child? index .tagType).toList ++ container.members
  /-- Only a container declaration has a tag, which is an expression. -/
  container_tag :
    ∀ tag, tree.child? index .tagType = some tag →
      tree.HasTag index [.containerDecl] ∧
        ∃ node, tree.node? tag = some node ∧
          Category.expr.admits (powerAt tree.kinds node.main) node.form = true
  wrapped_part : ∀ inner, tree.wrapped? index = some inner → inner ∈ tree.children index
  operand_parts :
    ∀ left right, tree.operands? index = some (left, right) →
      left ∈ tree.children index ∧ right ∈ tree.children index
  /-- A field is a member of the container or the file that is its parent. -/
  field_owner :
    tree.HasTag index [.containerField] →
      ∃ owner container,
        tree.parent? index = some owner ∧
          tree.HasTag owner [.containerDecl, .root] ∧
            tree.container? owner = some container ∧ index ∈ container.members

section Forms

theorem hasTag_iff
    {tags : List NodeTag}
    (found : tree.node? index = some node) :
    tree.HasTag index tags ↔ node.form.tag ∈ tags := by
  simp [HasTag, tag?, form?, found]

theorem hasTag_of_tag_eq
    {tag : NodeTag}
    (found : tree.node? index = some node)
    (tagEq : node.form.tag = tag) :
    tree.HasTag index [tag] :=
  (hasTag_iff found).mpr (List.mem_singleton.mpr tagEq)

theorem not_hasTag
    {tags : List NodeTag}
    (missing : tree.node? index = none) :
    ¬tree.HasTag index tags := by
  simp [HasTag, tag?, form?, missing]

theorem binding?_isSome_iff : (tree.binding? index).isSome ↔ tree.HasTag index [.varDecl] := by
  cases found : tree.node? index with
  | none => simp [binding?, found, not_hasTag found]
  | some node =>
      rw [hasTag_iff found]
      cases formEq : node.form <;> simp [binding?, found, formEq, NodeForm.tag]

theorem container?_isSome_iff :
    (tree.container? index).isSome ↔ tree.HasTag index [.containerDecl, .root] := by
  cases found : tree.node? index with
  | none => simp [container?, found, not_hasTag found]
  | some node =>
      rw [hasTag_iff found]
      cases formEq : node.form <;> simp [container?, found, formEq, NodeForm.tag]

theorem exists_of_binding?
    {binding : Binding}
    (hasBinding : tree.binding? index = some binding) :
    ∃ node head,
      tree.node? index = some node ∧
        node.form = .varDecl head ∧
          binding =
            {
              toBindingHead := head
              type? := node.child? .typeExpr
              value? := node.child? .value
            } := by
  obtain ⟨node, found, hasBinding⟩ := Option.bind_eq_some_iff.mp hasBinding
  split at hasBinding
  case h_1 head formEq => exact ⟨node, head, found, formEq, (Option.some.inj hasBinding).symm⟩
  case h_2 => cases hasBinding

theorem exists_of_field?
    {field : Field}
    (hasField : tree.field? index = some field) :
    ∃ node,
      tree.node? index = some node ∧
        node.form = .containerField (some field.name) ∧
          field.type? = node.child? .typeExpr ∧ field.value? = node.child? .value := by
  obtain ⟨node, found, hasField⟩ := Option.bind_eq_some_iff.mp hasField
  split at hasField
  case h_1 name formEq =>
    cases hasField
    exact ⟨node, found, formEq, rfl, rfl⟩
  case h_2 => cases hasField

theorem exists_of_ownPrototype?
    {prototype : Prototype}
    (hasPrototype : tree.ownPrototype? index = some prototype) :
    ∃ node head,
      tree.node? index = some node ∧
        node.form = .fnProto head ∧
          prototype =
            {
              toPrototypeHead := head
              parameters := node.childrenIn .parameter
              returnType? := node.child? .returnType
            } := by
  obtain ⟨node, found, hasPrototype⟩ := Option.bind_eq_some_iff.mp hasPrototype
  split at hasPrototype
  case h_1 head formEq => exact ⟨node, head, found, formEq, (Option.some.inj hasPrototype).symm⟩
  case h_2 => cases hasPrototype

/-- The prototype of a node is that of the node itself, or that of the prototype of a function. -/
theorem exists_of_prototype?
    {prototype : Prototype}
    (hasPrototype : tree.prototype? index = some prototype) :
    ∃ owner,
      tree.ownPrototype? owner = some prototype ∧
        (owner = index ∨ tree.HasTag index [.fnDecl] ∧ owner ∈ tree.children index) := by
  obtain ⟨node, found, hasPrototype⟩ := Option.bind_eq_some_iff.mp hasPrototype
  split at hasPrototype
  case h_1 formEq =>
    obtain ⟨owner, isChild, hasPrototype⟩ := Option.bind_eq_some_iff.mp hasPrototype
    refine ⟨owner, hasPrototype, .inr ⟨?_, ?_⟩⟩
    · exact hasTag_of_tag_eq found (by rw [formEq]; rfl)
    · rw [children_eq found]
      exact Node.mem_childIndices_of_child? isChild
  case h_2 => exact ⟨index, hasPrototype, .inl rfl⟩

end Forms

/-- The declared name of a node of a parsed tree is an identifier. -/
theorem tokenKind_of_name?
    {name : TokenIndex}
    (parsed : parse source = .ok tree)
    (found : tree.node? index = some node)
    (named : node.form.name? = some name) :
    tree.tokenKind name = .identifier := by
  obtain ⟨children, encloses⟩ := parse_encloses parsed found
  have isIdentifier := (encloses.declares name named).isIdentifier
  rwa [kindAt_kinds] at isIdentifier

/-- The prototype of a function is a node of prototype form. -/
theorem parse_exists_prototype
    (parsed : parse source = .ok tree)
    (found : tree.node? index = some node)
    (isFunction : node.form = .fnDecl) :
    ∃ owner, node.child? .prototype = some owner ∧ tree.HasTag owner [.fnProto] := by
  have isSlot :
      .one .prototype .prototype ∈ node.form.slots (powerAt tree.kinds node.main) := by
    simp [isFunction, NodeForm.slots]
  obtain ⟨owner, isChild⟩ := parse_exists_child? parsed found isSlot
  obtain ⟨slot, isSlot, roleEq, ownerNode, ownerFound, admitted⟩ :=
    parse_exists_slot parsed found (Node.mem_children_of_child? isChild)
  obtain rfl : slot = .one .prototype .prototype := by
    simp only [isFunction, NodeForm.slots, List.mem_cons, List.not_mem_nil, or_false] at isSlot
    rcases isSlot with rfl | rfl
    · rfl
    · cases roleEq
  exact ⟨owner, isChild, hasTag_of_tag_eq ownerFound (beq_iff_eq.mp admitted)⟩

theorem ownPrototype?_isSome
    (isPrototype : tree.HasTag index [.fnProto]) :
    (tree.ownPrototype? index).isSome := by
  cases found : tree.node? index with
  | none => exact (not_hasTag found isPrototype).elim
  | some node =>
      rw [hasTag_iff found] at isPrototype
      cases formEq : node.form <;> simp_all [ownPrototype?, NodeForm.tag]

theorem prototype?_isSome_iff
    (parsed : parse source = .ok tree) :
    (tree.prototype? index).isSome ↔ tree.HasTag index [.fnProto, .fnDecl] := by
  cases found : tree.node? index with
  | none => simp [prototype?, found, not_hasTag found]
  | some node =>
      rw [hasTag_iff found]
      cases formEq : node.form with
      | fnDecl =>
          obtain ⟨owner, isChild, isPrototype⟩ := parse_exists_prototype parsed found formEq
          simp [prototype?, found, formEq, isChild, ownPrototype?_isSome isPrototype,
            NodeForm.tag]
      | _ => simp [prototype?, ownPrototype?, found, formEq, NodeForm.tag]

theorem wrapped?_isSome_iff
    (parsed : parse source = .ok tree) :
    (tree.wrapped? index).isSome ↔
      tree.HasTag index [.ptrType, .optionalType, .grouped, .errorUnion] := by
  cases found : tree.node? index with
  | none => simp [wrapped?, found, not_hasTag found]
  | some node =>
      rw [hasTag_iff found]
      have exists_child :
          ∀ role category, .one role category ∈ node.form.slots (powerAt tree.kinds node.main) →
            ∃ child, node.child? role = some child :=
        fun _ _ => parse_exists_child? parsed found
      cases formEq : node.form with
      | ptrType | optionalType =>
          obtain ⟨inner, isChild⟩ :=
            exists_child .inner .type (by simp [formEq, NodeForm.slots])
          simp [wrapped?, found, formEq, isChild, NodeForm.tag]
      | grouped =>
          obtain ⟨inner, isChild⟩ :=
            exists_child .inner .expr (by simp [formEq, NodeForm.slots])
          simp [wrapped?, found, formEq, isChild, NodeForm.tag]
      | errorUnion =>
          obtain ⟨payload, isChild⟩ :=
            exists_child .payload .type (by simp [formEq, NodeForm.slots])
          simp [wrapped?, found, formEq, isChild, NodeForm.tag]
      | _ => simp [wrapped?, found, formEq, NodeForm.tag]

theorem operands?_isSome_iff
    (parsed : parse source = .ok tree) :
    (tree.operands? index).isSome ↔
      tree.HasTag index [.binaryOp, .mergeErrorSets, .assign] := by
  cases found : tree.node? index with
  | none => simp [operands?, found, not_hasTag found]
  | some node =>
      rw [hasTag_iff found]
      have exists_child :
          ∀ role category, .one role category ∈ node.form.slots (powerAt tree.kinds node.main) →
            ∃ child, node.child? role = some child :=
        fun _ _ => parse_exists_child? parsed found
      cases formEq : node.form with
      | binaryOp | mergeErrorSets =>
          obtain ⟨left, isLeft⟩ := exists_child .left _ (by rw [formEq]; exact List.mem_cons_self)
          obtain ⟨right, isRight⟩ :=
            exists_child .right _ (by rw [formEq]; exact List.mem_cons_of_mem _ List.mem_cons_self)
          simp [operands?, found, formEq, isLeft, isRight, NodeForm.tag]
      | assign =>
          obtain ⟨left, isLeft⟩ := exists_child .left .expr (by simp [formEq, NodeForm.slots])
          obtain ⟨right, isRight⟩ := exists_child .right .expr (by simp [formEq, NodeForm.slots])
          simp [operands?, found, formEq, isLeft, isRight, NodeForm.tag]
      | _ => simp [operands?, found, formEq, NodeForm.tag]

/-- The children of a container are its members, behind a tag if there is one. -/
theorem childIndices_of_hasMembers
    (parsed : parse source = .ok tree)
    (found : tree.node? index = some node)
    (hasMembers : node.form.hasMembers = true) :
    node.childIndices = (node.child? .tagType).toList ++ node.childrenIn .member := by
  obtain ⟨ast, ⟨_, phrase⟩, depicts⟩ := parse_phrase parsed (Array.mem_of_getElem? found)
  cases phrase with
  | @node _ head children _ fits =>
      have sameHead : node.toNodeHead = head := depicts.head_eq
      have rolesEq : node.children.map Prod.fst = children.map Prod.fst := depicts.roles_eq
      rw [← sameHead] at fits
      cases formEq : node.form with
      | root =>
          rw [formEq] at fits
          exact Node.childIndices_of_members
            (List.forall_mem_map.mp (rolesEq ▸ fits.roles_of_members))
      | containerDecl kind =>
          rw [formEq] at fits
          cases fits with
          | absent fits =>
              exact Node.childIndices_of_members
                (List.forall_mem_map.mp (rolesEq ▸ fits.roles_of_members))
          | present _ fits =>
              obtain ⟨⟨_, tag⟩, rest, childrenEq, rfl, restEq⟩ := List.map_eq_cons_iff.mp rolesEq
              exact Node.childIndices_of_tag childrenEq
                (List.forall_mem_map.mp (restEq ▸ fits.roles_of_members))
      | _ => simp [formEq, NodeForm.hasMembers] at hasMembers

/-- The members of a container are the children in this role, of a node that has members. -/
theorem exists_of_container?
    {container : Container}
    (hasContainer : tree.container? index = some container) :
    ∃ node,
      tree.node? index = some node ∧
        node.form.hasMembers = true ∧ container.members = node.childrenIn .member := by
  obtain ⟨node, found, hasContainer⟩ := Option.bind_eq_some_iff.mp hasContainer
  split at hasContainer
  case h_1 kind formEq =>
    cases hasContainer
    exact ⟨node, found, by rw [formEq]; rfl, rfl⟩
  case h_2 formEq =>
    cases hasContainer
    exact ⟨node, found, by rw [formEq]; rfl, rfl⟩
  case h_3 => cases hasContainer

/-- A node that has members has a tag that says so, and the members are those of its container. -/
theorem container?_of_hasMembers
    (found : tree.node? index = some node)
    (hasMembers : node.form.hasMembers = true) :
    tree.HasTag index [.containerDecl, .root] ∧
      ∃ container,
        tree.container? index = some container ∧
          container.members = node.childrenIn .member := by
  rw [hasTag_iff found]
  cases formEq : node.form with
  | root | containerDecl => simp [container?, found, formEq, NodeForm.tag]
  | _ => simp [formEq, NodeForm.hasMembers] at hasMembers

theorem mem_children_of_wrapped?
    {inner : NodeIndex}
    (wraps : tree.wrapped? index = some inner) :
    inner ∈ tree.children index := by
  obtain ⟨node, found, wraps⟩ := Option.bind_eq_some_iff.mp wraps
  rw [children_eq found]
  split at wraps
  case h_5 => cases wraps
  all_goals exact Node.mem_childIndices_of_child? wraps

theorem mem_children_of_operands?
    {left right : NodeIndex}
    (joins : tree.operands? index = some (left, right)) :
    left ∈ tree.children index ∧ right ∈ tree.children index := by
  obtain ⟨node, found, joins⟩ := Option.bind_eq_some_iff.mp joins
  rw [children_eq found]
  split at joins
  case h_4 => cases joins
  all_goals
    obtain ⟨_, isLeft, joins⟩ := Option.bind_eq_some_iff.mp joins
    obtain ⟨_, isRight, joins⟩ := Option.bind_eq_some_iff.mp joins
    cases joins
    exact ⟨Node.mem_childIndices_of_child? isLeft, Node.mem_childIndices_of_child? isRight⟩

/-- Only a container declaration has a child that is its tag, and this child is an expression. -/
theorem parse_tag_of_child?
    {tag : NodeIndex}
    (parsed : parse source = .ok tree)
    (isTag : tree.child? index .tagType = some tag) :
    tree.HasTag index [.containerDecl] ∧
      ∃ node, tree.node? tag = some node ∧
        Category.expr.admits (powerAt tree.kinds node.main) node.form = true := by
  obtain ⟨node, found, isChild⟩ := Option.bind_eq_some_iff.mp isTag
  obtain ⟨slot, isSlot, roleEq, tagNode, tagFound, admitted⟩ :=
    parse_exists_slot parsed found (Node.mem_children_of_child? isChild)
  obtain ⟨⟨kind, formEq⟩, rfl⟩ := NodeForm.slot_of_tagType isSlot roleEq
  exact ⟨hasTag_of_tag_eq found (by rw [formEq]; rfl), tagNode, tagFound, admitted⟩

/-- What can only be a member is listed in the container of its parent. -/
theorem parse_member_of_parent
    (parsed : parse source = .ok tree)
    (found : tree.node? index = some node)
    (isOnlyMember : node.form.isOnlyMember = true) :
    ∃ owner container,
      tree.parent? index = some owner ∧
        tree.HasTag owner [.containerDecl, .root] ∧
          tree.container? owner = some container ∧ index ∈ container.members := by
  obtain ⟨owner, ownerNode, ownerFound, hasMembers, isMember⟩ :=
    parse_exists_owner parsed found isOnlyMember
  obtain ⟨hasTag, container, hasContainer, membersEq⟩ :=
    container?_of_hasMembers ownerFound hasMembers
  refine ⟨owner, container, (parse_parent?_iff parsed).mpr ?_, hasTag, hasContainer, ?_⟩
  · rw [children_eq ownerFound]
    exact List.mem_map_of_mem isMember
  · rw [membersEq]
    exact Node.mem_childrenIn_iff.mpr isMember

/-- Every part that the prototype of a node has is a child of the prototype node. -/
theorem mem_children_of_ownPrototype?
    {prototype : Prototype}
    {part : NodeIndex}
    (hasPrototype : tree.ownPrototype? index = some prototype)
    (isPart : part ∈ prototype.parameters ∨ part ∈ prototype.returnType?) :
    part ∈ tree.children index := by
  obtain ⟨node, head, found, -, rfl⟩ := exists_of_ownPrototype? hasPrototype
  rw [children_eq found]
  rcases isPart with isParameter | isReturnType
  · exact Node.mem_childIndices_of_childrenIn isParameter
  · exact Node.mem_childIndices_of_child? isReturnType

/-- A prototype in a parsed tree has an identifier as its name, if any, and a return type. -/
theorem parse_returnType?_isSome
    {prototype : Prototype}
    (parsed : parse source = .ok tree)
    (hasPrototype : tree.ownPrototype? index = some prototype) :
    (∀ name ∈ prototype.name, tree.tokenKind name = .identifier) ∧
      prototype.returnType?.isSome := by
  obtain ⟨node, head, found, formEq, rfl⟩ := exists_of_ownPrototype? hasPrototype
  have isSlot : .one .returnType .type ∈ node.form.slots (powerAt tree.kinds node.main) := by
    simp [formEq, NodeForm.slots]
  obtain ⟨returnType, isChild⟩ := parse_exists_child? parsed found isSlot
  refine ⟨fun name named => tokenKind_of_name? parsed found ?_, ?_⟩
  · rw [formEq]
    exact named
  · exact Option.isSome_iff_exists.mpr ⟨returnType, isChild⟩

/-- The accessors of a parsed tree agree with the tags and the children of every node. -/
theorem parse_accessorsAgree
    (parsed : parse source = .ok tree)
    (index : NodeIndex) :
    tree.AccessorsAgree index where
  binding_iff := binding?_isSome_iff
  prototype_iff := prototype?_isSome_iff parsed
  container_iff := container?_isSome_iff
  wrapped_iff := wrapped?_isSome_iff parsed
  operands_iff := operands?_isSome_iff parsed
  field_tag hasField := by
    obtain ⟨field, hasField⟩ := Option.isSome_iff_exists.mp hasField
    obtain ⟨node, found, formEq, -⟩ := exists_of_field? hasField
    exact hasTag_of_tag_eq found (by rw [formEq]; rfl)
  binding_parts binding hasBinding := by
    obtain ⟨node, head, found, formEq, rfl⟩ := exists_of_binding? hasBinding
    refine ⟨tokenKind_of_name? parsed found (by rw [formEq]; rfl), fun part isPart => ?_⟩
    rw [children_eq found]
    exact isPart.elim Node.mem_childIndices_of_child? Node.mem_childIndices_of_child?
  field_parts field hasField := by
    obtain ⟨node, found, formEq, typeEq, valueEq⟩ := exists_of_field? hasField
    refine ⟨tokenKind_of_name? parsed found (by rw [formEq]; rfl), fun part isPart => ?_⟩
    rw [typeEq, valueEq] at isPart
    rw [children_eq found]
    exact isPart.elim Node.mem_childIndices_of_child? Node.mem_childIndices_of_child?
  prototype_parts prototype hasPrototype := by
    obtain ⟨owner, hasPrototype, isOwner⟩ := exists_of_prototype? hasPrototype
    obtain ⟨named, hasReturnType⟩ := parse_returnType?_isSome parsed hasPrototype
    obtain ⟨node, head, found, formEq, -⟩ := exists_of_ownPrototype? hasPrototype
    refine ⟨named, hasReturnType, owner, ?_, isOwner, fun part isPart => ?_⟩
    · exact hasTag_of_tag_eq found (by rw [formEq]; rfl)
    · exact mem_children_of_ownPrototype? hasPrototype isPart
  container_parts container hasContainer := by
    obtain ⟨node, found, hasMembers, membersEq⟩ := exists_of_container? hasContainer
    rw [children_eq found, membersEq, child?, found]
    exact childIndices_of_hasMembers parsed found hasMembers
  container_tag _ isTag := parse_tag_of_child? parsed isTag
  wrapped_part _ wraps := mem_children_of_wrapped? wraps
  operand_parts _ _ joins := mem_children_of_operands? joins
  field_owner isField := by
    cases found : tree.node? index with
    | none => exact (not_hasTag found isField).elim
    | some node =>
        rw [hasTag_iff found] at isField
        refine parse_member_of_parent parsed found (NodeForm.isOnlyMember_iff.mpr ?_)
        exact List.mem_cons.mpr (.inl (List.mem_singleton.mp isField))

/-- A union with a tag, a field and a function: the tag is a child and no member. -/
theorem parse_accessorsAgree_union :
    ∃ tree,
      parse "const T = union(E) { a: *u8, fn f(x: u8) !u8 {} };" = .ok tree ∧
        tree.children ⟨12⟩ = [⟨1⟩, ⟨4⟩, ⟨11⟩] ∧
          (tree.container? ⟨12⟩).map Container.members = some [⟨4⟩, ⟨11⟩] ∧
            (tree.prototype? ⟨11⟩).map Prototype.returnType? = some (some ⟨8⟩) ∧
              tree.AccessorsAgree ⟨4⟩ ∧ tree.AccessorsAgree ⟨11⟩ ∧ tree.AccessorsAgree ⟨12⟩ := by
  have facts :
      (parse "const T = union(E) { a: *u8, fn f(x: u8) !u8 {} };").toOption.map
          (fun tree =>
            (tree.children ⟨12⟩, (tree.container? ⟨12⟩).map Container.members,
              (tree.prototype? ⟨11⟩).map Prototype.returnType?)) =
        some ([⟨1⟩, ⟨4⟩, ⟨11⟩], some [⟨4⟩, ⟨11⟩], some (some ⟨8⟩)) := by
    decide +kernel
  obtain ⟨tree, hasTree, factsEq⟩ := Option.map_eq_some_iff.mp facts
  have parsed := eq_ok_of_toOption hasTree
  simp only [Prod.mk.injEq] at factsEq
  obtain ⟨childrenEq, membersEq, returnTypeEq⟩ := factsEq
  exact ⟨tree, parsed, childrenEq, membersEq, returnTypeEq, parse_accessorsAgree parsed ⟨4⟩,
    parse_accessorsAgree parsed ⟨11⟩, parse_accessorsAgree parsed ⟨12⟩⟩

end SyntaxTree

end ZigLint
