import ZigLint.Proofs.Parser.Ensures

namespace ZigLint

/-!
# The grammar of nested trees

A node may stand where its category is expected, and its form lists the slots for
its children: their roles, their categories and how many of them there are. `Phrase`
says of a nested tree that every node has in its slots what belongs there. The
binding power of operators is part of the categories: an expression of level `n`
joins its operands with the `n` tightest powers only.
-/

namespace NodeForm

/-- A binary operator or a merge of error sets. -/
def isOperator : NodeForm → Bool
  | .binaryOp | .mergeErrorSets => true
  | _ => false

/-- The forms of what is read where a type is expected. -/
def isType : NodeForm → Bool
  | .fnProto _ | .containerDecl _ | .errorSetDecl | .comptimeExpr | .identifier | .fieldAccess
  | .builtinCall | .call | .ptrType | .optionalType | .arrayType | .errorUnion | .grouped
  | .structInit | .enumLiteral | .errorValue | .numberLiteral | .stringLiteral | .charLiteral
  | .deref | .unwrapOptional | .arrayAccess | .ifExpr | .switchExpr | .unreachableExpr => true
  | _ => false

/-- The forms of what operators join. -/
def isOperand : NodeForm → Bool
  | .block | .unaryOp | .tryExpr | .returnExpr | .breakExpr | .continueExpr | .whileLoop
  | .forLoop => true
  | form => form.isType

/--
The forms of an expression of the given level.

For an operator the binding power decides.
-/
def isJoined (level power : Nat) (form : NodeForm) : Bool :=
  if form.isOperator then 7 - level < power else form.isOperand

end NodeForm

/-- What may stand at some place of a tree. -/
inductive Category where
  | type
  | operand
  /-- Operands that are joined by operators of the `level` tightest powers. -/
  | joined (level : Nat)
  | assignment
  | block
  | statement
  /-- An entry of an initializer. -/
  | entry
  /-- A prong of a `switch`. -/
  | prong
  | prototype
  | parameter
  | parameterType
  | member
  | file
  deriving Repr, DecidableEq

namespace Category

/-- An expression without assignment. -/
abbrev expr : Category := .joined 7

/-- A node of the given form belongs to the category; `power` is that of its main token. -/
def admits (category : Category) (power : Nat) (form : NodeForm) : Bool :=
  match category with
  | .type => form.isType
  | .operand => form.isOperand
  | .joined level => form.isJoined level power
  | .assignment => form.tag == .assign || form.isJoined 7 power
  | .block => form.tag == .block
  | .statement => [.assign, .varDecl, .deferStmt].contains form.tag || form.isJoined 7 power
  | .entry => form.tag == .fieldInit || form.isJoined 7 power
  | .prong => form.tag == .switchProng
  | .prototype => form.tag == .fnProto
  | .parameter => form.tag == .paramDecl
  | .parameterType => form.tag == .anyType || form.isType
  | .member =>
      [.varDecl, .containerField, .fnDecl, .testDecl, .comptimeExpr, .usingNamespace].contains
        form.tag
  | .file => form.tag == .root

end Category

/-- A place for children: their role, their category and how many there may be. -/
inductive Slot where
  | one (role : Role) (category : Category)
  | optional (role : Role) (category : Category)
  | many (role : Role) (category : Category)
  deriving Repr, DecidableEq

namespace Slot

/-- The role of the children in the slot. -/
def role : Slot → Role
  | .one role _ | .optional role _ | .many role _ => role

/-- The category of the children in the slot. -/
def category : Slot → Category
  | .one _ category | .optional _ category | .many _ category => category

end Slot

/-- The slots of a form, in source order; `power` is that of the main token. -/
def NodeForm.slots (power : Nat) : NodeForm → List Slot
  | .root => [.many .member .member]
  | .varDecl _ | .containerField _ => [.optional .typeExpr .type, .optional .value .expr]
  | .fnDecl => [.one .prototype .prototype, .optional .body .block]
  | .fnProto _ => [.many .parameter .parameter, .one .returnType .type]
  | .paramDecl _ => [.one .typeExpr .parameterType]
  | .containerDecl _ => [.optional .tagType .expr, .many .member .member]
  -- An operator has on its right only what binds tighter than itself.
  | .binaryOp | .mergeErrorSets =>
      [.one .left (.joined (8 - power)), .one .right (.joined (7 - power))]
  | .testDecl => [.one .operand .block]
  | .comptimeExpr | .unaryOp | .tryExpr => [.one .operand .operand]
  | .usingNamespace | .fieldInit => [.one .operand .expr]
  | .block => [.many .part .statement]
  | .fieldAccess | .deref | .unwrapOptional => [.one .operand .type]
  | .arrayAccess => [.one .operand .type, .many .part .expr]
  | .builtinCall => [.many .argument .expr]
  | .call => [.one .callee .type, .many .argument .expr]
  | .ptrType => [.many .bound .expr, .one .inner .type]
  | .arrayType => [.many .bound .expr, .one .element .type]
  | .optionalType => [.one .inner .type]
  | .errorUnion => [.optional .errors .type, .one .payload .type]
  | .grouped => [.one .inner .expr]
  | .structInit => [.optional .typeExpr .type, .many .part .entry]
  | .assign => [.one .left .expr, .one .right .expr]
  | .returnExpr | .breakExpr => [.optional .operand .expr]
  | .deferStmt => [.one .operand .assignment]
  | .ifExpr => [.one .part .expr, .one .part .assignment, .optional .part .assignment]
  | .whileLoop | .forLoop =>
      [.many .part .expr, .optional .part .assignment, .one .part .assignment,
        .optional .part .assignment]
  | .switchExpr => [.one .part .expr, .many .part .prong]
  | .switchProng => [.many .part .expr, .one .part .assignment]
  | .errorSetDecl | .identifier | .anyType | .enumLiteral | .errorValue | .numberLiteral
  | .stringLiteral | .charLiteral | .continueExpr | .unreachableExpr => []

/-- The children fill the slots in order with trees of their categories. -/
inductive Fits (isOf : Category → Ast → Prop) : List Slot → List (Role × Ast) → Prop where
  | nil : Fits isOf [] []
  | one
      {role : Role}
      {category : Category}
      {ast : Ast}
      {slots : List Slot}
      {rest : List (Role × Ast)} :
      isOf category ast →
      Fits isOf slots rest →
      Fits isOf (.one role category :: slots) ((role, ast) :: rest)
  | absent
      {role : Role}
      {category : Category}
      {slots : List Slot}
      {rest : List (Role × Ast)} :
      Fits isOf slots rest →
      Fits isOf (.optional role category :: slots) rest
  | present
      {role : Role}
      {category : Category}
      {ast : Ast}
      {slots : List Slot}
      {rest : List (Role × Ast)} :
      isOf category ast →
      Fits isOf slots rest →
      Fits isOf (.optional role category :: slots) ((role, ast) :: rest)
  | noMore
      {role : Role}
      {category : Category}
      {slots : List Slot}
      {rest : List (Role × Ast)} :
      Fits isOf slots rest →
      Fits isOf (.many role category :: slots) rest
  | more
      {role : Role}
      {category : Category}
      {ast : Ast}
      {slots : List Slot}
      {rest : List (Role × Ast)} :
      isOf category ast →
      Fits isOf (.many role category :: slots) rest →
      Fits isOf (.many role category :: slots) ((role, ast) :: rest)

/-- The binding power of the operator at a token; zero if there is none. -/
def powerAt (kinds : Array TokenKind) (main : TokenIndex) : Nat :=
  (Parser.kindAt kinds main.val).bindingPower?.getD 0

/-- The tree belongs to the category, and every node of it has its children in their slots. -/
inductive Phrase (kinds : Array TokenKind) : Category → Ast → Prop where
  | node
      {category : Category}
      {head : NodeHead}
      {children : List (Role × Ast)} :
      category.admits (powerAt kinds head.main) head.form = true →
      Fits (Phrase kinds) (head.form.slots (powerAt kinds head.main)) children →
      Phrase kinds category (.node head children)

namespace NodeForm

variable {form : NodeForm}

theorem isOperand_of_isType
    (isType : form.isType = true) :
    form.isOperand = true := by
  cases form <;> simp_all [isOperand]

theorem isOperator_of_isOperand
    (isOperand : form.isOperand = true) :
    form.isOperator = false := by
  cases form with
  | binaryOp | mergeErrorSets => cases isOperand
  | _ => rfl

theorem isJoined_of_isOperator
    {level power : Nat}
    (isOperator : form.isOperator = true) :
    form.isJoined level power = true ↔ 7 - level < power := by
  rw [isJoined, if_pos isOperator, decide_eq_true_iff]

theorem slots_of_isOperator
    {power : Nat}
    (isOperator : form.isOperator = true) :
    form.slots power =
      [.one .left (.joined (8 - power)), .one .right (.joined (7 - power))] := by
  cases form with
  | binaryOp | mergeErrorSets => rfl
  | _ => cases isOperator

/-- An operand is an expression of every level. -/
theorem isJoined_of_isOperand
    {level power : Nat}
    (isOperand : form.isOperand = true) :
    form.isJoined level power = true := by
  rw [isJoined, isOperator_of_isOperand isOperand]
  exact isOperand

theorem isJoined_succ
    {level power : Nat}
    (isJoined : form.isJoined level power = true) :
    form.isJoined (level + 1) power = true := by
  revert isJoined
  rw [NodeForm.isJoined, NodeForm.isJoined]
  split
  · simp only [decide_eq_true_eq]
    omega
  · exact id

end NodeForm

namespace Fits

variable
  {isOf : Category → Ast → Prop}
  {role : Role}
  {category : Category}
  {slots : List Slot}
  {rest : List (Role × Ast)}

theorem optional
    {ast? : Option Ast}
    (isPart : ∀ ast ∈ ast?, isOf category ast)
    (fits : Fits isOf slots rest) :
    Fits isOf (.optional role category :: slots) (Parser.childIn role ast? ++ rest) := by
  cases ast? with
  | none => exact .absent fits
  | some ast => exact .present (isPart ast rfl) fits

theorem many
    {asts : List Ast}
    (areParts : ∀ ast ∈ asts, isOf category ast)
    (fits : Fits isOf slots rest) :
    Fits isOf (.many role category :: slots) (Parser.childrenIn role asts ++ rest) := by
  induction asts with
  | nil => exact .noMore fits
  | cons ast asts inductionHypothesis =>
      rw [List.forall_mem_cons] at areParts
      exact .more areParts.1 (inductionHypothesis areParts.2)

theorem lastOptional
    {ast? : Option Ast}
    (isPart : ∀ ast ∈ ast?, isOf category ast) :
    Fits isOf [.optional role category] (Parser.childIn role ast?) := by
  have fits : Fits isOf [.optional role category] (Parser.childIn role ast? ++ []) :=
    optional isPart .nil
  rwa [List.append_nil] at fits

theorem lastMany
    {asts : List Ast}
    (areParts : ∀ ast ∈ asts, isOf category ast) :
    Fits isOf [.many role category] (Parser.childrenIn role asts) := by
  have fits : Fits isOf [.many role category] (Parser.childrenIn role asts ++ []) :=
    many areParts .nil
  rwa [List.append_nil] at fits

/-- Every child fills one of the slots. -/
theorem exists_slot
    {children : List (Role × Ast)}
    {child : Role × Ast}
    (fits : Fits isOf slots children)
    (member : child ∈ children) :
    ∃ slot ∈ slots, slot.role = child.1 ∧ isOf slot.category child.2 := by
  induction fits with
  | nil => cases member
  | one isPart _ inductionHypothesis
  | present isPart _ inductionHypothesis =>
      rcases List.mem_cons.mp member with rfl | member
      · exact ⟨_, List.mem_cons_self, rfl, isPart⟩
      · obtain ⟨slot, isSlot, fills⟩ := inductionHypothesis member
        exact ⟨slot, List.mem_cons_of_mem _ isSlot, fills⟩
  | more isPart _ inductionHypothesis =>
      rcases List.mem_cons.mp member with rfl | member
      · exact ⟨_, List.mem_cons_self, rfl, isPart⟩
      · exact inductionHypothesis member
  | absent _ inductionHypothesis
  | noMore _ inductionHypothesis =>
      obtain ⟨slot, isSlot, fills⟩ := inductionHypothesis member
      exact ⟨slot, List.mem_cons_of_mem _ isSlot, fills⟩

/-- A slot for exactly one child is filled. -/
theorem exists_child
    {children : List (Role × Ast)}
    (fits : Fits isOf slots children)
    (isSlot : .one role category ∈ slots) :
    ∃ ast, (role, ast) ∈ children := by
  induction fits with
  | nil => cases isSlot
  | one _ _ inductionHypothesis =>
      rcases List.mem_cons.mp isSlot with same | isSlot
      · cases same
        exact ⟨_, List.mem_cons_self⟩
      · obtain ⟨ast, member⟩ := inductionHypothesis isSlot
        exact ⟨ast, List.mem_cons_of_mem _ member⟩
  | present _ _ inductionHypothesis =>
      obtain ⟨ast, member⟩ := inductionHypothesis ((List.mem_cons.mp isSlot).resolve_left nofun)
      exact ⟨ast, List.mem_cons_of_mem _ member⟩
  | more _ _ inductionHypothesis =>
      obtain ⟨ast, member⟩ := inductionHypothesis isSlot
      exact ⟨ast, List.mem_cons_of_mem _ member⟩
  | absent _ inductionHypothesis
  | noMore _ inductionHypothesis =>
      exact inductionHypothesis ((List.mem_cons.mp isSlot).resolve_left nofun)

end Fits

namespace Phrase

variable {kinds : Array TokenKind} {category : Category} {ast : Ast}

/-- Every child of a phrase is a phrase. -/
theorem exists_category
    {child : Role × Ast}
    (phrase : Phrase kinds category ast)
    (member : child ∈ ast.children) :
    ∃ category, Phrase kinds category child.2 := by
  cases phrase with
  | node _ fits =>
      obtain ⟨slot, -, -, isPart⟩ := fits.exists_slot member
      exact ⟨slot.category, isPart⟩

/-- A phrase belongs to every category that admits its form. -/
theorem widen
    {wide : Category}
    (phrase : Phrase kinds category ast)
    (includes :
      ∀ power form, category.admits power form = true → wide.admits power form = true) :
    Phrase kinds wide ast := by
  cases phrase with
  | node admitted fits => exact .node (includes _ _ admitted) fits

theorem type_operand
    (phrase : Phrase kinds .type ast) :
    Phrase kinds .operand ast :=
  phrase.widen fun _ _ => NodeForm.isOperand_of_isType

theorem block_operand
    (phrase : Phrase kinds .block ast) :
    Phrase kinds .operand ast := by
  refine phrase.widen fun _ form isBlock => ?_
  cases form with
  | block => rfl
  | _ => cases isBlock

theorem prototype_type
    (phrase : Phrase kinds .prototype ast) :
    Phrase kinds .type ast := by
  refine phrase.widen fun _ form isPrototype => ?_
  cases form with
  | fnProto => rfl
  | _ => cases isPrototype

theorem type_parameterType
    (phrase : Phrase kinds .type ast) :
    Phrase kinds .parameterType ast :=
  phrase.widen fun _ _ isType => (Bool.or_eq_true _ _).mpr (.inr isType)

theorem operand_joined
    (phrase : Phrase kinds .operand ast) :
    Phrase kinds (.joined 0) ast :=
  phrase.widen fun _ _ => NodeForm.isJoined_of_isOperand

theorem joined_succ
    {level : Nat}
    (phrase : Phrase kinds (.joined level) ast) :
    Phrase kinds (.joined (level + 1)) ast :=
  phrase.widen fun _ _ => NodeForm.isJoined_succ

theorem expr_assignment
    (phrase : Phrase kinds .expr ast) :
    Phrase kinds .assignment ast :=
  phrase.widen fun _ _ isExpr => (Bool.or_eq_true _ _).mpr (.inr isExpr)

theorem expr_entry
    (phrase : Phrase kinds .expr ast) :
    Phrase kinds .entry ast :=
  phrase.widen fun _ _ isExpr => (Bool.or_eq_true _ _).mpr (.inr isExpr)

theorem assignment_statement
    (phrase : Phrase kinds .assignment ast) :
    Phrase kinds .statement ast := by
  refine phrase.widen fun _ form isAssignment => ?_
  rcases (Bool.or_eq_true _ _).mp isAssignment with isAssign | isExpr
  · rw [Category.admits, beq_iff_eq.mp isAssign]
    rfl
  · exact (Bool.or_eq_true _ _).mpr (.inr isExpr)

end Phrase

end ZigLint
