import ZigLint.Proofs.Parser.PrimaryProgress
import ZigLint.Proofs.Syntax.Layout

namespace ZigLint

/-!
# Every token list is parsed or refused

Whatever tokens stand in front of the end of the file, the parser comes to an end,
stays in front of existing tokens and within the allowed depth, and reads on: each
production reads a token if it succeeds, but for those that may find nothing to
read, and so does each round of a loop that asks for another one. The indices it
follows on the way are those of existing tokens and of nodes already laid out.
-/

namespace Parser

variable
  {kinds : Array TokenKind}
  {depth : Nat}
  {inner : Inner}

/--
Every production reads a token if it succeeds, except for a list of members, what
is skipped if it is there, and the end of a statement.
-/
structure ProductionsMove
    (kinds : Array TokenKind)
    (depth : Nat)
    (inner : Inner) :
    Prop where
  containerMembers : Proceeds kinds depth (containerMembers inner)
  skipDeclModifiers : Proceeds kinds depth skipDeclModifiers
  skipPointerModifiers : Proceeds kinds depth skipPointerModifiers
  skipCapture : Proceeds kinds depth skipCapture
  skipJumpLabel : Proceeds kinds depth skipJumpLabel
  endStatement : Proceeds kinds depth endStatement
  skipParens : Advances kinds depth skipParens
  decl : ∀ start isPub, Advances kinds depth (decl inner start isPub)
  varDecl : ∀ start isPub isExtern, Advances kinds depth (varDecl inner start isPub isExtern)
  fnDecl : ∀ start isPub isExtern, Advances kinds depth (fnDecl inner start isPub isExtern)
  prototype : ∀ start isPub isExtern, Advances kinds depth (prototype inner start isPub isExtern)
  parameter? : Advances kinds depth (parameter? inner)
  containerField : Advances kinds depth (containerField inner)
  testDecl : Advances kinds depth (testDecl inner)
  containerDecl : Advances kinds depth (containerDecl inner)
  block : ∀ start, Advances kinds depth (block inner start)
  statement : Advances kinds depth (statement inner)
  assignExpr : Advances kinds depth (assignExpr inner)
  expr : Advances kinds depth (expr inner)
  binaryExpr : ∀ level, Advances kinds depth (binaryExpr inner level)
  prefixExpr : Advances kinds depth inner.prefixExpr
  unaryExpr : Advances kinds depth (unaryExpr inner)
  primaryExpr : Advances kinds depth (primaryExpr inner)
  ifExpr : ∀ start, Advances kinds depth (ifExpr inner start)
  loopExpr : ∀ start, Advances kinds depth (loopExpr inner start)
  switchExpr : ∀ start, Advances kinds depth (switchExpr inner start)
  curlySuffixExpr : Advances kinds depth (curlySuffixExpr inner)
  initializerList : ∀ start type?, Advances kinds depth (initializerList inner start type?)
  typeExpr : Advances kinds depth inner.typeExpr
  wrappedTypeExpr : Advances kinds depth (wrappedTypeExpr inner)
  bracketType : ∀ start, Advances kinds depth (bracketType inner start)
  errorUnionExpr : Advances kinds depth (errorUnionExpr inner)
  suffixExpr : Advances kinds depth (suffixExpr inner)
  callArguments : Advances kinds depth (callArguments inner)
  primaryTypeExpr : Advances kinds depth (primaryTypeExpr inner)

theorem productionsMove (advances : InnerAdvances kinds depth inner) :
    ProductionsMove kinds depth inner where
  containerMembers := containerMembers_proceeds advances
  skipDeclModifiers := skipDeclModifiers_proceeds
  skipPointerModifiers := skipPointerModifiers_proceeds
  skipCapture := skipCapture_proceeds
  skipJumpLabel := skipJumpLabel_proceeds
  endStatement := endStatement_proceeds
  skipParens := skipParens_advances
  decl _ _ := decl_advances advances
  varDecl _ _ _ := varDecl_advances advances
  fnDecl _ _ _ := fnDecl_advances advances
  prototype _ _ _ := prototype_advances advances
  parameter? := parameter?_advances advances
  containerField := containerField_advances advances
  testDecl := testDecl_advances advances
  containerDecl := containerDecl_advances advances
  block _ := block_advances advances
  statement := statement_advances advances
  assignExpr := assignExpr_advances advances
  expr := expr_advances advances
  binaryExpr := binaryExpr_advances advances
  prefixExpr := advances.prefixExpr
  unaryExpr := unaryExpr_advances advances
  primaryExpr := primaryExpr_advances advances
  ifExpr _ := ifExpr_advances advances
  loopExpr _ := loopExpr_advances advances
  switchExpr _ := switchExpr_advances advances
  curlySuffixExpr := curlySuffixExpr_advances advances
  initializerList _ _ := initializerList_advances advances
  typeExpr := advances.typeExpr
  wrappedTypeExpr := wrappedTypeExpr_advances advances
  bracketType _ := bracketType_advances advances
  errorUnionExpr := errorUnionExpr_advances advances
  suffixExpr := suffixExpr_advances advances
  callArguments := callArguments_advances advances
  primaryTypeExpr := primaryTypeExpr_advances advances

/-- Every round of a loop reads a token if it asks for another round. -/
structure RoundsRepeat
    (kinds : Array TokenKind)
    (depth : Nat)
    (inner : Inner) :
    Prop where
  skipParens : ∀ level, Repeats kinds depth (groupRound level)
  skipCapture : GoesOn kinds depth captureRound
  skipDeclModifiers : GoesOn kinds depth declModifierRound
  skipPointerModifiers : GoesOn kinds depth pointerModifierRound
  containerMembers : Repeats kinds depth (memberRound inner)
  declModifiers : ∀ isExtern, Repeats kinds depth (externRound isExtern)
  prototype : Repeats kinds depth (parameterRound inner)
  block : Repeats kinds depth (statementRound inner)
  binaryExpr : ∀ level start left, Repeats kinds depth (operatorRound inner level start left)
  loopInputs : Repeats kinds depth (separatedRound .rParen (forInput inner))
  switchExpr : Repeats kinds depth (prongRound inner)
  prongItems : Repeats kinds depth (prongItemRound inner)
  initializerList :
    Repeats kinds depth (separatedRound .rBrace (List.singleton <$> initializerEntry inner))
  suffixExpr : ∀ start subject, Repeats kinds depth (suffixRound inner start subject)
  callArguments : Repeats kinds depth (separatedRound .rParen (List.singleton <$> expr inner))
  multilineString : GoesOn kinds depth (accept .multilineStringLine)
  errorNames : GoesOn kinds depth errorNameRound

theorem roundsRepeat (advances : InnerAdvances kinds depth inner) :
    RoundsRepeat kinds depth inner where
  skipParens := groupRound_repeats
  skipCapture := captureRound_goesOn
  skipDeclModifiers := declModifierRound_goesOn
  skipPointerModifiers := pointerModifierRound_goesOn
  containerMembers := memberRound_repeats advances
  declModifiers := externRound_repeats
  prototype := parameterRound_repeats advances
  block := statementRound_repeats advances
  binaryExpr level _ _ := operatorRound_repeats (binaryExpr_advances advances level)
  loopInputs := separatedRound_repeats (forInput_advances advances)
  switchExpr := prongRound_repeats advances
  prongItems := .of_advances (prongItemRound_advances advances)
  initializerList := separatedRound_repeats (map_advances (initializerEntry_advances advances))
  suffixExpr _ _ := suffixRound_repeats advances
  callArguments := separatedRound_repeats (map_advances (expr_advances advances))
  multilineString := accept_moves nofun
  errorNames := errorNameRound_goesOn

end Parser

/-- Laying out further children leaves the nodes before them as they are. -/
theorem getElem?_layOutAll
    {nodes : Array Node}
    {index : Nat}
    {node : Node}
    (children : List (Role × Ast))
    (found : nodes[index]? = some node) :
    (layOutAll nodes children).1[index]? = some node := by
  obtain ⟨added, appended, -⟩ := layOutAll_forest nodes children
  obtain ⟨inside, -⟩ := Array.getElem?_eq_some_iff.mp found
  rw [← Array.getElem?_toList, appended, List.getElem?_append_left inside, Array.getElem?_toList]
  exact found

/-- The index that laying out a tree answers is that of its top node. -/
theorem exists_getElem?_layOut
    (nodes : Array Node)
    (ast : Ast) :
    ∃ node,
      (ast.layOut nodes).1[(ast.layOut nodes).2.val]? = some node ∧
        node.toNodeHead = ast.head := by
  obtain ⟨head, children⟩ := ast
  exact ⟨_, Array.getElem?_push_size, rfl⟩

namespace SyntaxTree

open ZigLint.Parser

variable {tokens : Array Token}

/--
The parser comes to an end on a token list, stays within it and within the allowed
depth, and reads on.
-/
structure ParsesTotally (tokens : Array Token) : Prop where
  answers :
    (∃ nodes, parseTokens tokens = .ok nodes) ∨
      ∃ (position : Nat) (token : Token) (expectation : Expectation),
        tokens[position]? = some token ∧
          parseTokens tokens =
            .error { offset := token.offset, fault := .unexpected expectation token.kind }
  /-- The answer is where a run ends that starts at the first token, no level deep. -/
  runs :
    Runs (tokens.map Token.kind) 0 file 0 (file (tokens.map Token.kind) 0)
  /-- A run answers what the parser answers, and no step of it leaves the bounds. -/
  run_bounds :
    ∀ {depth : Nat} {α : Type} {parser : Parser α} {position : Nat}
      {outcome : Except Mismatch (α × Nat)},
      Runs (tokens.map Token.kind) depth parser position outcome →
      parser (tokens.map Token.kind) position = outcome ∧
        depth ≤ 256 ∧
          position ≤ endOf outcome ∧
            endOf outcome < tokens.size
  productions : ∀ depth, ProductionsMove (tokens.map Token.kind) depth (atDepth depth)
  rounds : ∀ depth, RoundsRepeat (tokens.map Token.kind) depth (atDepth depth)
  deeper :
    ∀ depth < 256,
      atDepth depth =
        {
          prefixExpr := unaryExpr (atDepth (depth + 1))
          typeExpr := wrappedTypeExpr (atDepth (depth + 1))
        }
  deepest :
    ∀ depth ≥ 256,
      atDepth depth =
        {
          prefixExpr := mismatch .shallowerNesting
          typeExpr := mismatch .shallowerNesting
        }
  token_found :
    ∀ position < tokens.size, ∀ index stop,
      advance (tokens.map Token.kind) position = .ok (index, stop) →
      (tokens[index.val]?).map Token.kind = some (kindAt (tokens.map Token.kind) position)
  node_found :
    ∀ (nodes : Array Node) (ast : Ast) (children : List (Role × Ast)), ∃ node,
      (layOutAll (ast.layOut nodes).1 children).1[(ast.layOut nodes).2.val]? = some node ∧
        node.toNodeHead = ast.head
  root_found :
    ∀ members,
      ((nodesOfMembers tokens.size members)[0]?).map Node.toNodeHead = some (.ofRoot tokens.size)

/-- Every position in a token list is that of a token, with the kind the parser sees there. -/
theorem getElem?_map_kind
    {position : Nat}
    (inside : position < tokens.size) :
    (tokens[position]?).map Token.kind = some (kindAt (tokens.map Token.kind) position) := by
  rw [kindAt, Array.getD_eq_getD_getElem?, Array.getElem?_map, Array.getElem?_eq_getElem inside]
  rfl

/-- A token list that ends with the end of the file has a first token. -/
theorem endsFile_of_back?
    (endsFile : tokens.back?.map Token.kind = some .eof) :
    EndsFile (tokens.map Token.kind) ∧ 0 < tokens.size := by
  have size_pos : 0 < tokens.size := by
    apply Nat.pos_of_ne_zero
    intro isEmpty
    rw [Array.back?, Array.getElem?_eq_none (by omega)] at endsFile
    cases endsFile
  rw [Array.back?, getElem?_map_kind (Nat.sub_one_lt_of_lt size_pos)] at endsFile
  refine ⟨?_, size_pos⟩
  rw [EndsFile, Array.size_map]
  exact Option.some.inj endsFile

/-- A run that fails does so at an existing token, which the error tells. -/
theorem parseTokens_of_runs
    {outcome : Except Mismatch (List Ast × Nat)}
    (run : Runs (tokens.map Token.kind) 0 file 0 outcome) :
    (∃ nodes, parseTokens tokens = .ok nodes) ∨
      ∃ (position : Nat) (token : Token) (expectation : Expectation),
        tokens[position]? = some token ∧
          parseTokens tokens =
            .error { offset := token.offset, fault := .unexpected expectation token.kind } := by
  rw [parseTokens, run.eq]
  cases outcome with
  | ok answer => exact .inl ⟨_, rfl⟩
  | error failure =>
      have inside : failure.position.val < tokens.size := Array.size_map ▸ run.bounds.2.2
      have found := Array.getElem?_eq_getElem inside
      refine .inr ⟨_, tokens[failure.position.val], failure.expectation, found, ?_⟩
      simp only [ParseError.ofMismatch, found]
      rfl

/-- A token list that ends with the end of the file is parsed or refused. -/
theorem parseTokens_parsesTotally
    (endsFile : tokens.back?.map Token.kind = some .eof) :
    ParsesTotally tokens := by
  have sizeEq : (tokens.map Token.kind).size = tokens.size := Array.size_map
  obtain ⟨endsFile, size_pos⟩ := endsFile_of_back? endsFile
  have start : InBounds (tokens.map Token.kind) 0 0 := ⟨Nat.zero_le _, sizeEq.symm ▸ size_pos⟩
  obtain ⟨outcome, run, -⟩ := file_proceeds endsFile start trivial
  exact {
    answers := parseTokens_of_runs run
    runs := run.eq.symm ▸ run
    run_bounds := fun run =>
      ⟨run.eq, run.bounds.1.depth_le, run.bounds.2.1, sizeEq ▸ run.bounds.2.2⟩
    productions := fun depth => productionsMove (atDepth_advances depth)
    rounds := fun depth => roundsRepeat (atDepth_advances depth)
    deeper := fun _ => atDepth_of_lt
    deepest := fun _ => atDepth_of_le
    token_found := by
      intro position inside index stop read
      rw [advance_apply] at read
      cases read
      exact getElem?_map_kind inside
    node_found := by
      intro nodes ast children
      obtain ⟨node, found, headEq⟩ := exists_getElem?_layOut nodes ast
      exact ⟨node, getElem?_layOutAll children found, headEq⟩
    root_found := by
      intro members
      obtain ⟨nodes, references, listed, -⟩ := nodesOfMembers_forest tokens.size members
      rw [← Array.getElem?_toList, listed]
      rfl
  }

/-- A binding is read with its value. -/
theorem parseTokens_parsesTotally_binding :
    ∃ tokens nodes,
      Token.scan "const a = b;" = .ok tokens ∧
        parseTokens tokens.toArray = .ok nodes ∧
          nodes.size = 3 ∧
            ParsesTotally tokens.toArray := by
  have facts :
      ((Token.scan "const a = b;").toOption.bind fun tokens =>
          (parseTokens tokens.toArray).toOption.map fun nodes =>
            (nodes.size, tokens.toArray.back?.map Token.kind)) =
        some (3, some .eof) := by
    decide +kernel
  obtain ⟨tokens, scanned, facts⟩ := Option.bind_eq_some_iff.mp facts
  obtain ⟨nodes, parsed, factsEq⟩ := Option.map_eq_some_iff.mp facts
  obtain ⟨size_eq, endsFile⟩ := Prod.mk.inj factsEq
  exact ⟨tokens, nodes, eq_ok_of_toOption scanned, eq_ok_of_toOption parsed, size_eq,
    parseTokens_parsesTotally endsFile⟩

end SyntaxTree

end ZigLint
