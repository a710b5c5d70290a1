import ZigLint.Declaration.Site
import ZigLint.Proofs.Types.Anonymous

namespace ZigLint

/-!
# Resolution and spelling

The type of a node depends on the texts of tokens in two ways: on what its
expressions say, and on which declarations are spelled alike. So the types and
the kinds of declarations stay the same when names are spelled otherwise that
no expression mentions, neither by the old nor by the new spelling.
-/

namespace DeclarationKind

variable {left right : ResolvedType}

/-- The kind of a declaration does not depend on the names of containers. -/
theorem ofValueShape_eq
    (same : left.anonymous = right.anonymous) :
    ofValueShape left.normalize.shape = ofValueShape right.normalize.shape := by
  have blind : ∀ shape : TypeShape, ofValueShape shape.anonymous = ofValueShape shape := by
    intro shape
    cases shape <;> rfl
  have sameShape : left.shape.strip.anonymous = right.shape.strip.anonymous := by
    rw [← TypeShape.strip_anonymous, ← TypeShape.strip_anonymous]
    exact congrArg (fun resolved => resolved.shape.strip) same
  show ofValueShape left.shape.strip = ofValueShape right.shape.strip
  rw [← blind left.shape.strip, sameShape, blind]

theorem ofValueType_eq
    (same : left.anonymous = right.anonymous) :
    ofValueType left.normalize = ofValueType right.normalize := by
  have blind : ∀ resolved : ResolvedType,
      ofValueType resolved.anonymous = ofValueType resolved := by
    rintro ⟨shape, isTypeValue⟩
    cases shape <;> rfl
  rw [← blind left.normalize, ← blind right.normalize, ← ResolvedType.normalize_anonymous,
    ← ResolvedType.normalize_anonymous, same]

end DeclarationKind

/-- The texts that resolution reads off a node. -/
def Node.readTexts (tree : SyntaxTree) (node : Node) : List String :=
  match node.form with
  | .identifier | .fieldAccess | .numberLiteral => [tree.tokenText node.main]
  | .builtinCall =>
      tree.tokenText node.main :: ((node.childrenIn .argument).head?.map tree.mainText).toList
  | _ => []

namespace SyntaxTree

/-- The texts that resolution reads off the nodes of a tree. -/
def usedTexts (tree : SyntaxTree) : List String :=
  tree.nodes.toList.flatMap (Node.readTexts tree)

/-- The tree with other tokens. -/
def respelled (tree : SyntaxTree) (source : String) (tokens : Array Token) : SyntaxTree :=
  { tree with source, tokens }

/-- The other tokens say the same wherever resolution reads them. -/
structure Respells (tree : SyntaxTree) (source : String) (tokens : Array Token) : Prop where
  tokenKind_eq : ∀ token, (tree.respelled source tokens).tokenKind token = tree.tokenKind token
  readTexts_eq :
    ∀ node ∈ tree.nodes.toList, node.readTexts (tree.respelled source tokens) = node.readTexts tree
  declares_iff :
    ∀ text ∈ tree.usedTexts, ∀ index,
      (tree.respelled source tokens).declaredName? index = some text ↔
        tree.declaredName? index = some text

/-- The token at which a node declares a name. -/
def declaredToken? (tree : SyntaxTree) (index : NodeIndex) : Option TokenIndex := do
  let node ← tree.node? index
  match node.form with
  | .varDecl head => some head.name
  | .fnDecl => (tree.prototype? index).bind fun prototype => prototype.name
  | .paramDecl name | .containerField name => name
  | _ => none

/-- The name that a node declares is the text of its name token. -/
theorem declaredName?_eq
    (tree : SyntaxTree)
    (index : NodeIndex) :
    tree.declaredName? index = (tree.declaredToken? index).map tree.tokenText := by
  simp only [declaredName?, declaredToken?, Option.bind_eq_bind]
  cases tree.node? index with
  | none => rfl
  | some node =>
      rw [Option.bind_some, Option.bind_some]
      cases node.form with
      | fnDecl =>
          cases tree.prototype? index with
          | none => rfl
          | some prototype => exact (Option.map_eq_bind (f := tree.tokenText)).symm
      | paramDecl name => cases name <;> rfl
      | containerField name => cases name <;> rfl
      | _ => rfl

/-- Names at tokens that say the same wherever expressions mention it are no matter. -/
theorem respells_of_text_iff
    {tree : SyntaxTree}
    {source : String}
    {tokens : Array Token}
    (tokenKind_eq : ∀ token, (tree.respelled source tokens).tokenKind token = tree.tokenKind token)
    (text_iff :
      ∀ text ∈ tree.usedTexts, ∀ token,
        (tree.respelled source tokens).tokenText token = text ↔ tree.tokenText token = text) :
    tree.Respells source tokens := by
  refine ⟨tokenKind_eq, fun node member => ?_, fun text isUsed index => ?_⟩
  · have sameText : ∀ token, tree.tokenText token ∈ node.readTexts tree →
        (tree.respelled source tokens).tokenText token = tree.tokenText token := by
      intro token isRead
      have isUsed := List.mem_flatMap.mpr ⟨node, member, isRead⟩
      exact (text_iff _ isUsed token).mpr rfl
    cases formEq : node.form with
    | identifier | fieldAccess | numberLiteral =>
        have isRead : tree.tokenText node.main ∈ node.readTexts tree := by
          simp [Node.readTexts, formEq]
        simp only [Node.readTexts, formEq, sameText node.main isRead]
    | builtinCall =>
        have isRead : tree.tokenText node.main ∈ node.readTexts tree := by
          simp [Node.readTexts, formEq]
        have sameArgument :
            ∀ argument, (node.childrenIn .argument).head? = some argument →
              (tree.respelled source tokens).mainText argument = tree.mainText argument := by
          intro argument isFirst
          simp only [mainText, show (tree.respelled source tokens).node? = tree.node? from rfl]
          cases found : tree.node? argument with
          | none => rfl
          | some argumentNode =>
              refine sameText argumentNode.main ?_
              simp [Node.readTexts, formEq, isFirst, mainText, found]
        simp only [Node.readTexts, formEq, sameText node.main isRead]
        cases isFirst : (node.childrenIn .argument).head? with
        | none => rfl
        | some argument => simp only [Option.map_some, sameArgument argument isFirst]
    | _ => simp only [Node.readTexts, formEq]
  · rw [declaredName?_eq, declaredName?_eq]
    show (tree.declaredToken? index).map _ = some text ↔ _
    cases tree.declaredToken? index with
    | none => exact Iff.rfl
    | some token =>
        rw [Option.map_some, Option.map_some, Option.some.injEq, Option.some.injEq]
        exact text_iff text isUsed token

section Accessors

variable (tree : SyntaxTree) (source : String) (tokens : Array Token)

@[simp] theorem node?_respelled : (tree.respelled source tokens).node? = tree.node? := rfl

@[simp] theorem tag?_respelled : (tree.respelled source tokens).tag? = tree.tag? := rfl

@[simp] theorem form?_respelled : (tree.respelled source tokens).form? = tree.form? := rfl

@[simp] theorem children_respelled :
    (tree.respelled source tokens).children = tree.children := rfl

@[simp] theorem prototype?_respelled :
    (tree.respelled source tokens).prototype? = tree.prototype? := rfl

@[simp] theorem container?_respelled :
    (tree.respelled source tokens).container? = tree.container? := rfl

@[simp] theorem hasFields_respelled :
    (tree.respelled source tokens).hasFields = tree.hasFields := rfl

@[simp] theorem isFieldNode_respelled :
    (tree.respelled source tokens).isFieldNode = tree.isFieldNode := rfl

@[simp] theorem enclosing_respelled :
    (tree.respelled source tokens).enclosing = tree.enclosing := rfl

theorem unwrapSteps_respelled
    (steps : Nat) :
    (tree.respelled source tokens).unwrapSteps steps = tree.unwrapSteps steps := by
  induction steps with
  | zero => rfl
  | succ steps inductionHypothesis =>
      funext index
      rw [unwrapSteps, unwrapSteps, inductionHypothesis]
      rfl

@[simp] theorem unwrapType_respelled :
    (tree.respelled source tokens).unwrapType = tree.unwrapType :=
  tree.unwrapSteps_respelled source tokens tree.nodes.size

@[simp] theorem unwrapReturnType_respelled :
    (tree.respelled source tokens).unwrapReturnType = tree.unwrapReturnType := by
  funext index
  rw [unwrapReturnType, unwrapReturnType, unwrapType_respelled]
  rfl

@[simp] theorem firstReturn?_respelled :
    (tree.respelled source tokens).firstReturn? = tree.firstReturn? := by
  have within :
      ∀ steps, (tree.respelled source tokens).firstReturnWithin? steps =
        tree.firstReturnWithin? steps := by
    intro steps
    induction steps with
    | zero => rfl
    | succ steps inductionHypothesis =>
        funext index
        rw [firstReturnWithin?, firstReturnWithin?, inductionHypothesis]
        rfl
  exact within tree.nodes.size

end Accessors

namespace Respells

variable {tree : SyntaxTree} {source : String} {tokens : Array Token}

theorem mem_nodes
    {index : NodeIndex}
    {node : Node}
    (found : tree.node? index = some node) :
    node ∈ tree.nodes.toList := by
  rw [node?, ← Array.getElem?_toList] at found
  exact List.mem_of_getElem? found

theorem mem_usedTexts
    {index : NodeIndex}
    {node : Node}
    {text : String}
    (found : tree.node? index = some node)
    (isRead : text ∈ node.readTexts tree) :
    text ∈ tree.usedTexts :=
  List.mem_flatMap.mpr ⟨node, mem_nodes found, isRead⟩

theorem identifier?_eq
    (respells : tree.Respells source tokens) :
    (tree.respelled source tokens).identifier? = tree.identifier? := by
  funext index
  rw [identifier?, identifier?, node?_respelled]
  cases found : tree.node? index with
  | none => rfl
  | some node =>
      have sameTexts := respells.readTexts_eq node (mem_nodes found)
      rw [Node.readTexts, Node.readTexts] at sameTexts
      simp only [Option.bind_eq_bind, Option.bind_some]
      split
      · rename_i isIdentifier
        simp only [isIdentifier, List.cons.injEq, and_true] at sameTexts
        rw [sameTexts]
      · rfl

theorem isTypeIdentifier_eq
    (respells : tree.Respells source tokens) :
    (tree.respelled source tokens).isTypeIdentifier = tree.isTypeIdentifier := by
  funext index
  rw [isTypeIdentifier, isTypeIdentifier, respells.identifier?_eq]

theorem functionShape_eq
    (respells : tree.Respells source tokens) :
    (tree.respelled source tokens).functionShape = tree.functionShape := by
  funext prototype node
  simp only [functionShape, prototype?_respelled, unwrapReturnType_respelled,
    respells.isTypeIdentifier_eq]

theorem builtinName?_eq
    (respells : tree.Respells source tokens) :
    (tree.respelled source tokens).builtinName? = tree.builtinName? := by
  funext index
  rw [builtinName?, builtinName?, node?_respelled]
  cases found : tree.node? index with
  | none => rfl
  | some node =>
      have sameTexts := respells.readTexts_eq node (mem_nodes found)
      rw [Node.readTexts, Node.readTexts] at sameTexts
      simp only [Option.bind_eq_bind, Option.bind_some]
      split
      · rename_i isBuiltin
        simp only [isBuiltin, List.cons.injEq] at sameTexts
        rw [sameTexts.1]
      · rfl

section Lookup

variable {text : String} (respells : tree.Respells source tokens) (isUsed : text ∈ tree.usedTexts)
include respells isUsed

/-- A used text is declared by the same node. -/
theorem declaring?_eq
    (candidates : List NodeIndex) :
    (tree.respelled source tokens).declaring? text candidates =
      tree.declaring? text candidates := by
  unfold declaring?
  congr 1
  funext candidate
  rw [Bool.eq_iff_iff, beq_iff_eq, beq_iff_eq]
  exact respells.declares_iff text isUsed candidate

theorem declarationIn?_eq
    (scope : NodeIndex) :
    (tree.respelled source tokens).declarationIn? text scope = tree.declarationIn? text scope := by
  simp only [declarationIn?, respells.declaring?_eq isUsed, tag?_respelled, container?_respelled,
    isFieldNode_respelled, prototype?_respelled, children_respelled]

theorem lookup?_eq
    (index : NodeIndex) :
    (tree.respelled source tokens).lookup? index text = tree.lookup? index text := by
  rw [lookup?, lookup?, enclosing_respelled]
  congr 1
  funext scope
  exact respells.declarationIn?_eq isUsed scope

end Lookup

section Steps

variable
  {typeAt? newTypeAt? : NodeIndex → Option ResolvedType}
  (respells : tree.Respells source tokens)
  (alikeAt : ∀ index, Alike (newTypeAt? index) (typeAt? index))

theorem containerShape?_alike
    (tree : SyntaxTree)
    (source : String)
    (tokens : Array Token)
    (index : NodeIndex) :
    Alike (((tree.respelled source tokens).containerShape? index).bind fun shape =>
        some (.typeValue shape))
      ((tree.containerShape? index).bind fun shape => some (.typeValue shape)) := by
  rw [containerShape?, containerShape?, container?_respelled]
  cases tree.container? index with
  | none => exact .refl none
  | some container => rfl

/-- The container around a node is the same type but for its name. -/
theorem enclosingContainer?_alike
    (tree : SyntaxTree)
    (source : String)
    (tokens : Array Token)
    (index : NodeIndex) :
    Alike ((tree.respelled source tokens).enclosingContainer? index)
      (tree.enclosingContainer? index) := by
  simp only [enclosingContainer?, enclosing_respelled, tag?_respelled, Option.bind_eq_bind,
    Option.pure_def]
  exact .bind_left _ fun scope => containerShape?_alike tree source tokens scope

include respells alikeAt

theorem typeOfDeclaration?_alike
    (declaration : NodeIndex) :
    Alike (typeOfDeclaration? (tree.respelled source tokens) newTypeAt? declaration)
      (typeOfDeclaration? tree typeAt? declaration) := by
  simp only [typeOfDeclaration?, node?_respelled, tag?_respelled, respells.isTypeIdentifier_eq,
    respells.functionShape_eq, Option.bind_eq_bind, Option.pure_def]
  refine .bind_left _ fun node => ?_
  split
  · cases node.child? .typeExpr with
    | none => exact .bind_left _ alikeAt
    | some type =>
        refine .ite ?_ (alikeAt type).instantiate
        have valueAlike : Alike ((node.child? .value).bind newTypeAt?)
            ((node.child? .value).bind typeAt?) :=
          .bind_left _ alikeAt
        exact congrArg some (valueAlike.getD _)
  · exact .refl _
  · exact .bind_left _ fun type => .ite (.refl none) (alikeAt type).instantiate
  · exact .bind_left _ fun type => (alikeAt type).instantiate
  · exact .refl none

theorem typeOfName?_alike
    {text : String}
    (isUsed : text ∈ tree.usedTexts)
    (index : NodeIndex) :
    Alike (typeOfName? (tree.respelled source tokens) newTypeAt? index text)
      (typeOfName? tree typeAt? index text) := by
  simp only [typeOfName?, respells.lookup?_eq isUsed, Option.bind_eq_bind, Option.pure_def]
  refine .ite (.refl _) (.ite (.refl _) (.ite (.refl _) (.ite (.refl _) (.ite (.refl _) ?_))))
  exact .bind_left _ fun declaration => respells.typeOfDeclaration?_alike alikeAt declaration

/-- The member of a type or value is found in the same place. -/
theorem typeOfMember?_alike
    {text : String}
    {newSubject subject : ResolvedType}
    (isUsed : text ∈ tree.usedTexts)
    (same : newSubject.anonymous = subject.anonymous) :
    Alike (typeOfMember? (tree.respelled source tokens) newTypeAt? newSubject text)
      (typeOfMember? tree typeAt? subject text) := by
  have blind : ∀ type, Alike (typeOfMember? tree typeAt? type text)
      (typeOfMember? tree typeAt? type.anonymous text) := by
    intro type
    have stripEq : type.anonymous.shape.strip = type.shape.strip.anonymous :=
      type.shape.strip_anonymous
    rw [typeOfMember?, typeOfMember?, stripEq]
    cases type.shape.strip with
    | container kind node? hasFields name =>
        cases node? with
        | none => exact .refl none
        | some node =>
            simp only [TypeShape.anonymous, Option.bind_eq_bind]
            refine .bind_left _ fun container => ?_
            cases tree.declaring? text (container.members.filter tree.isFieldNode) with
            | none => exact .refl _
            | some field => exact .ite (.ite rfl (.refl none)) (.refl _)
    | errorSet => exact .ite (.refl _) (.refl none)
    | _ => exact .refl none
  refine Alike.trans ?_ (.of_blind (fun type => typeOfMember? tree typeAt? type text) blind same)
  rw [typeOfMember?, typeOfMember?]
  cases newSubject.shape.strip with
  | container kind node? hasFields name =>
      cases node? with
      | none => exact .refl none
      | some node =>
          simp only [container?_respelled, isFieldNode_respelled, respells.declaring?_eq isUsed,
            Option.bind_eq_bind]
          refine .bind_left _ fun container => ?_
          cases tree.declaring? text (container.members.filter tree.isFieldNode) with
          | none =>
              exact .bind_left _ fun member => respells.typeOfDeclaration?_alike alikeAt member
          | some field => exact .ite (.refl _) (respells.typeOfDeclaration?_alike alikeAt field)
  | errorSet => exact .refl _
  | _ => exact .refl none

omit respells in
theorem typeOfCall?_alike
    (function : NodeIndex)
    (returnsType : Bool) :
    Alike (typeOfCall? (tree.respelled source tokens) newTypeAt? function returnsType)
      (typeOfCall? tree typeAt? function returnsType) := by
  simp only [typeOfCall?, node?_respelled, prototype?_respelled, firstReturn?_respelled,
    Option.bind_eq_bind, Option.pure_def]
  refine .ite ?_ ?_
  · refine congrArg some (Alike.getD ?_ _)
    exact (Alike.bind_left _ alikeAt).filter_isTypeValue
  · exact .bind_left _ fun prototype => .bind_left _ fun returned => (alikeAt returned).instantiate

omit respells in
theorem typeOfUnary?_alike
    (operator : TokenKind)
    (operand? : Option NodeIndex) :
    Alike (typeOfUnary? newTypeAt? operator operand?) (typeOfUnary? typeAt? operator operand?) := by
  have operandAlike : Alike (operand?.bind newTypeAt?) (operand?.bind typeAt?) :=
    .bind_left operand? alikeAt
  unfold typeOfUnary?
  split
  · exact .refl _
  · rw [Option.map_eq_bind, Option.map_eq_bind]
    refine operandAlike.bind fun _ _ =>
      .of_blind (fun type => some (.valueOf (.pointer type.shape))) fun type => ?_
    simp [Alike, ResolvedType.anonymous, ResolvedType.valueOf, TypeShape.anonymous]
  · exact operandAlike

omit respells in
theorem typeOfBinary?_alike
    (operator : TokenKind)
    (left : NodeIndex) :
    Alike (typeOfBinary? newTypeAt? operator left) (typeOfBinary? typeAt? operator left) := by
  unfold typeOfBinary?
  split
  case h_9 => exact (alikeAt left).unwrap? TypeShape.optionalPayload?_anonymous
  case h_10 => exact (alikeAt left).unwrap? TypeShape.errorUnionPayload?_anonymous
  case h_11 => exact alikeAt left
  all_goals exact .refl _

omit respells in
/-- A call of a builtin with the same name and argument has the same type. -/
theorem typeOfBuiltin?_alike
    {first? : Option NodeIndex}
    (sameFirst : first?.map (tree.respelled source tokens).mainText = first?.map tree.mainText)
    (index : NodeIndex)
    (name : String) :
    Alike (typeOfBuiltin? (tree.respelled source tokens) newTypeAt? index name first?)
      (typeOfBuiltin? tree typeAt? index name first?) := by
  have firstAlike : Alike (first?.bind newTypeAt?) (first?.bind typeAt?) :=
    .bind_left first? alikeAt
  unfold typeOfBuiltin?
  split
  · cases first? with
    | none => exact .refl none
    | some first =>
        have sameText : (tree.respelled source tokens).mainText first = tree.mainText first :=
          Option.some.inj sameFirst
        rw [Option.map_some, Option.map_some, sameText]
        exact .refl _
  · exact enclosingContainer?_alike tree source tokens index
  · rcases firstAlike.cases_on with ⟨newNone, none⟩ | ⟨newType, type, newFound, found, same⟩
    · rw [newNone, none]
      exact .refl _
    · rw [newFound, found]
      refine Alike.of_blind (fun type => some (.typeValue type.shape)) (fun type => ?_) same
      simp [Alike, ResolvedType.anonymous, ResolvedType.typeValue]
  · exact .refl _
  · rw [Option.map_eq_bind, Option.map_eq_bind]
    exact firstAlike.instantiate
  · exact .refl none

omit respells in
/-- Only what a function type says of its function decides the type of a call. -/
theorem typeOfCallee?_alike
    {newType type : ResolvedType}
    (same : newType.anonymous = type.anonymous) :
    Alike
      (match newType.shape with
      | .function function returnsType =>
          typeOfCall? (tree.respelled source tokens) newTypeAt? function returnsType
      | _ => none)
      (match type.shape with
      | .function function returnsType => typeOfCall? tree typeAt? function returnsType
      | _ => none) := by
  have match_eq :
      ∀ (call? : NodeIndex → Bool → Option ResolvedType) (shape : TypeShape),
        (match shape with
        | .function function returnsType => call? function returnsType
        | _ => none) = shape.function?.bind fun callee => call? callee.1 callee.2 := by
    intro call? shape
    cases shape <;> rfl
  have sameFunction : newType.shape.function? = type.shape.function? := by
    rw [← newType.shape.function?_anonymous, ← type.shape.function?_anonymous]
    exact congrArg (fun type => type.shape.function?) same
  rw [match_eq, match_eq, sameFunction]
  exact .bind_left _ fun callee => typeOfCall?_alike alikeAt callee.1 callee.2

/-- One step of resolution. -/
theorem typeOfNode?_alike
    (index : NodeIndex) :
    Alike (typeOfNode? (tree.respelled source tokens) newTypeAt? index)
      (typeOfNode? tree typeAt? index) := by
  simp only [typeOfNode?, node?_respelled, Option.bind_eq_bind, Option.pure_def]
  cases found : tree.node? index with
  | none => exact .refl none
  | some node =>
      rw [Option.bind_some, Option.bind_some]
      have sameTexts := respells.readTexts_eq node (mem_nodes found)
      have isUsed : ∀ {text}, text ∈ node.readTexts tree → text ∈ tree.usedTexts :=
        mem_usedTexts found
      rw [Node.readTexts, Node.readTexts] at sameTexts
      rw [Node.readTexts] at isUsed
      cases formEq : node.form with
      | identifier =>
          simp only [formEq, List.cons.injEq, and_true] at sameTexts
          simp only [formEq, List.mem_singleton] at isUsed
          rw [sameTexts]
          exact respells.typeOfName?_alike alikeAt (isUsed rfl) index
      | numberLiteral =>
          simp only [formEq, List.cons.injEq, and_true] at sameTexts
          rw [sameTexts]
          exact .refl _
      | fieldAccess =>
          simp only [formEq, List.cons.injEq, and_true] at sameTexts
          simp only [formEq, List.mem_singleton] at isUsed
          rw [sameTexts]
          exact .bind_left _ fun operand => (alikeAt operand).bind fun _ _ same =>
            respells.typeOfMember?_alike alikeAt (isUsed rfl) same
      | builtinCall =>
          simp only [formEq, List.cons.injEq] at sameTexts
          obtain ⟨sameName, sameArgument⟩ := sameTexts
          rw [sameName]
          refine typeOfBuiltin?_alike alikeAt ?_ index _
          cases first : (node.childrenIn .argument).head? with
          | none => rfl
          | some argument =>
              rw [first] at sameArgument
              exact congrArg some (List.cons.inj sameArgument).1
      | containerDecl kind => exact containerShape?_alike tree source tokens index
      | root => exact containerShape?_alike tree source tokens index
      | fnProto head =>
          simp only [respells.functionShape_eq]
          exact .refl _
      | errorSetDecl | mergeErrorSets | errorValue | charLiteral | stringLiteral => exact .refl _
      | ptrType | optionalType =>
          exact .bind_left _ fun inner => (alikeAt inner).wrap fun _ => rfl
      | arrayType => exact .bind_left _ fun element => (alikeAt element).wrap fun _ => rfl
      | errorUnion => exact .bind_left _ fun payload => (alikeAt payload).wrap fun _ => rfl
      | structInit => exact .bind_left _ fun type => (alikeAt type).instantiate
      | grouped | comptimeExpr => exact .bind_left _ alikeAt
      | tryExpr =>
          refine .bind_left _ fun operand => (alikeAt operand).bind fun _ _ =>
            .of_blind (fun type =>
              some ((type.unwrap? TypeShape.errorUnionPayload?).getD type)) fun type => ?_
          cases payload : type.shape.errorUnionPayload? <;>
            simp [Alike, ResolvedType.anonymous, ResolvedType.unwrap?, payload]
      | deref =>
          exact .bind_left _ fun operand =>
            (alikeAt operand).unwrap? TypeShape.pointerTarget?_anonymous
      | unwrapOptional =>
          exact .bind_left _ fun operand =>
            (alikeAt operand).unwrap? TypeShape.optionalPayload?_anonymous
      | arrayAccess =>
          exact .bind_left _ fun operand =>
            (alikeAt operand).unwrap? TypeShape.arrayElement?_anonymous
      | unaryOp =>
          simp only [respells.tokenKind_eq]
          exact typeOfUnary?_alike alikeAt _ _
      | binaryOp =>
          simp only [respells.tokenKind_eq]
          exact .bind_left _ fun left => typeOfBinary?_alike alikeAt _ left
      | call =>
          refine .bind_left _ fun callee => (alikeAt callee).bind fun newType type same => ?_
          exact typeOfCallee?_alike alikeAt same
      | _ => exact .refl none

end Steps

section Kinds

variable (respells : tree.Respells source tokens)
include respells

/-- The types of nodes are the same but for names, within any budget. -/
theorem typeWithin?_alike
    (budget : Nat)
    (index : NodeIndex) :
    Alike ((tree.respelled source tokens).typeWithin? budget index)
      (tree.typeWithin? budget index) := by
  induction budget generalizing index with
  | zero => exact .refl none
  | succ budget inductionHypothesis =>
      exact respells.typeOfNode?_alike inductionHypothesis index

theorem kindOfAnnotation_eq
    (typeNode : NodeIndex) :
    SyntaxTree.kindOfAnnotation (tree.respelled source tokens) typeNode =
      tree.kindOfAnnotation typeNode := by
  simp only [unwrapType_respelled, kindOfAnnotation, form?_respelled, respells.functionShape_eq,
    respells.isTypeIdentifier_eq, typeOf?]
  rcases (respells.typeWithin?_alike typeBudget (tree.unwrapType typeNode)).cases_on with
      ⟨newNone, isNone⟩ | ⟨newType, type, newFound, found, same⟩
  · rw [newNone, isNone]
  · rw [newFound, found]
    simp only [DeclarationKind.ofValueShape_eq same]

theorem kindOfValue_eq
    (value : NodeIndex) :
    (tree.respelled source tokens).kindOfValue value = tree.kindOfValue value := by
  simp only [kindOfValue, unwrapType_respelled, form?_respelled, respells.builtinName?_eq,
    container?_respelled, hasFields_respelled, typeOf?]
  rcases (respells.typeWithin?_alike typeBudget (tree.unwrapType value)).cases_on with
      ⟨newNone, isNone⟩ | ⟨newType, type, newFound, found, same⟩
  · rw [newNone, isNone]
  · rw [newFound, found]
    simp only [DeclarationKind.ofValueType_eq same]

theorem declarationKind?_eq
    (site : DeclarationSite) :
    (tree.respelled source tokens).declarationKind? site = tree.declarationKind? site := by
  simp only [declarationKind?]
  cases site.type? with
  | some typeNode => exact congrArg some (respells.kindOfAnnotation_eq typeNode)
  | none =>
      cases site.value? with
      | none => rfl
      | some value => exact congrArg some (respells.kindOfValue_eq value)

end Kinds

end Respells

end SyntaxTree

end ZigLint
