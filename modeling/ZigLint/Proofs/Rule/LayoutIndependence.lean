import Mathlib.Data.List.Forall2
import ZigLint.Proofs.Rule.ReportedTokens
import ZigLint.Proofs.Rule.RespelledRequirements
import ZigLint.Proofs.Token.TextKind

namespace ZigLint

/-!
# Layout independence

Two sources with the same token texts differ in blanks and comments only. They
are parsed to the same nodes, their declarations are of the same kinds, and the
built-in rules report the same about the same tokens. Offsets enter a problem as
the place of a token and nowhere else.
-/

namespace SyntaxTree

variable {source other : String} {tree otherTree : SyntaxTree}

/-- Sources with the same token texts have tokens of the same kinds. -/
theorem kinds_of_texts_eq
    (parsed : parse source = .ok tree)
    (otherParsed : parse other = .ok otherTree)
    (sameTexts : otherTree.tokens.toList.map Token.text = tree.tokens.toList.map Token.text) :
    otherTree.tokens.toList.map Token.kind = tree.tokens.toList.map Token.kind := by
  obtain ⟨-, pieces, isCut, tokensEq⟩ := parse_pieces parsed
  obtain ⟨-, otherPieces, otherCut, otherTokensEq⟩ := parse_pieces otherParsed
  rw [tokensEq, otherTokensEq] at sameTexts ⊢
  rw [Token.kinds_tokensFrom isCut, Token.kinds_tokensFrom otherCut, sameTexts]

/-- A source with the same token texts is parsed to the same tree over other tokens. -/
theorem eq_respelled_of_texts_eq
    (parsed : parse source = .ok tree)
    (otherParsed : parse other = .ok otherTree)
    (sameTexts : otherTree.tokens.toList.map Token.text = tree.tokens.toList.map Token.text) :
    otherTree = tree.respelled other otherTree.tokens := by
  have sameKinds := kinds_of_texts_eq parsed otherParsed sameTexts
  obtain ⟨tokens, _, _, scanned, -, treeEq⟩ := parse_eq_ok_iff.mp otherParsed
  have tokensEq : otherTree.tokens = tokens.toArray := by rw [treeEq]
  rw [tokensEq] at sameKinds
  have parsedAgain := parse_of_kinds_eq parsed scanned (by simpa using sameKinds)
  rw [otherParsed] at parsedAgain
  rw [tokensEq]
  exact Except.ok.inj parsedAgain

/-- The other tokens have the same texts and kinds, one by one. -/
structure LaidOut (tree : SyntaxTree) (source : String) (tokens : Array Token) : Prop where
  tokenText_eq : (tree.respelled source tokens).tokenText = tree.tokenText
  tokenKind_eq : (tree.respelled source tokens).tokenKind = tree.tokenKind

theorem laidOut_of_texts_eq
    (parsed : parse source = .ok tree)
    (otherParsed : parse other = .ok otherTree)
    (sameTexts : otherTree.tokens.toList.map Token.text = tree.tokens.toList.map Token.text) :
    tree.LaidOut other otherTree.tokens := by
  have sameKinds := kinds_of_texts_eq parsed otherParsed sameTexts
  constructor
  · funext token
    have sameText := congrArg (·[token.val]?) sameTexts
    simp only [List.getElem?_map, Array.getElem?_toList] at sameText
    exact congrArg (·.getD "") sameText
  · funext token
    have sameKind := congrArg (·[token.val]?) sameKinds
    simp only [List.getElem?_map, Array.getElem?_toList] at sameKind
    exact congrArg (·.getD .eof) sameKind

namespace LaidOut

variable {tokens : Array Token}

theorem respells
    (laidOut : tree.LaidOut source tokens) :
    tree.Respells source tokens := by
  apply respells_of_text_iff (congrFun laidOut.tokenKind_eq)
  intro text _ token
  rw [laidOut.tokenText_eq]

theorem isSelfDeref_eq
    (laidOut : tree.LaidOut source tokens) :
    (tree.respelled source tokens).isSelfDeref = tree.isSelfDeref := by
  funext node
  simp only [isSelfDeref, tag?_respelled, children_respelled, laidOut.respells.identifier?_eq]

theorem targetName?_eq
    (laidOut : tree.LaidOut source tokens) :
    (tree.respelled source tokens).targetName? = tree.targetName? := by
  funext target
  simp only [targetName?, tag?_respelled, mainText, node?_respelled, laidOut.tokenText_eq]

end LaidOut

end SyntaxTree

/-- The problem covers the bytes of a token, from the first one to the last. -/
structure Document.PointsAt
    (document : Document)
    (token : TokenIndex)
    (problem : Problem) :
    Prop where
  isToken : token.val < document.tree.tokens.size
  start_eq : problem.start.offset = (document.tree.tokenSpan token).start
  stop_eq : problem.stop.offset + 1 = (document.tree.tokenSpan token).stop

/-- The problems, each of its own document, say the same about the same token. -/
structure Document.SameReport (document other : Document) (problem otherProblem : Problem) :
    Prop where
  ruleId_eq : otherProblem.ruleId = problem.ruleId
  severity_eq : otherProblem.severity = problem.severity
  message_eq : otherProblem.message = problem.message
  fixText_eq : otherProblem.fix?.map Fix.text = problem.fix?.map Fix.text
  sameToken : ∃ token, document.PointsAt token problem ∧ other.PointsAt token otherProblem

namespace Document

variable
  {source other path otherPath ruleId : String}
  {tree otherTree : SyntaxTree}
  {severity : Severity}
  {token : TokenIndex}
  {problem otherProblem : Problem}

theorem Reports.pointsAt
    (reports : (ofTree path tree).Reports ruleId severity token problem)
    (parsed : SyntaxTree.parse source = .ok tree) :
    (ofTree path tree).PointsAt token problem := by
  obtain ⟨startEq, stopEq, -⟩ := reports.offsets parsed
  obtain ⟨entry, found, -⟩ := SyntaxTree.exists_token_of_isWord reports.isWord
  exact ⟨(Array.getElem?_eq_some_iff.mp found).1, startEq, stopEq⟩

/-- Reports about one token with the same message and the same new text are the same. -/
theorem Reports.sameReport
    (reports : (ofTree path tree).Reports ruleId severity token problem)
    (otherReports : (ofTree otherPath otherTree).Reports ruleId severity token otherProblem)
    (parsed : SyntaxTree.parse source = .ok tree)
    (otherParsed : SyntaxTree.parse other = .ok otherTree)
    (message_eq : otherProblem.message = problem.message)
    (fixText_eq : otherProblem.fix?.map Fix.text = problem.fix?.map Fix.text) :
    (ofTree path tree).SameReport (ofTree otherPath otherTree) problem otherProblem where
  ruleId_eq := otherReports.ruleId_eq.trans reports.ruleId_eq.symm
  severity_eq := otherReports.severity_eq.trans reports.severity_eq.symm
  message_eq := message_eq
  fixText_eq := fixText_eq
  sameToken := ⟨token, reports.pointsAt parsed, otherReports.pointsAt otherParsed⟩

/-- Names with the same text break a requirement alike. -/
theorem brokenRequirement?_cases
    (document otherDocument : Document)
    (tokenText_eq : otherDocument.tree.tokenText = document.tree.tokenText)
    (requirement : NameRequirement) :
    (document.brokenRequirement? ruleId severity requirement = none ∧
        otherDocument.brokenRequirement? ruleId severity requirement = none) ∨
      ∃ problem otherProblem,
        document.brokenRequirement? ruleId severity requirement = some problem ∧
          otherDocument.brokenRequirement? ruleId severity requirement = some otherProblem ∧
            otherProblem.message = problem.message ∧
              otherProblem.fix?.map Fix.text = problem.fix?.map Fix.text := by
  simp only [brokenRequirement?, nameProblem?, tokenText_eq]
  split
  · exact .inl ⟨rfl, rfl⟩
  · refine .inr ⟨_, _, rfl, rfl, rfl, ?_⟩
    simp only [Document.problem]
    split <;> rfl

/-- Requirements on judged names are broken alike, whatever the layout. -/
theorem brokenRequirements_sameReport
    {requirements : List NameRequirement}
    (parsed : SyntaxTree.parse source = .ok tree)
    (otherParsed : SyntaxTree.parse other = .ok otherTree)
    (tokenText_eq : otherTree.tokenText = tree.tokenText)
    (judged : ∀ requirement ∈ requirements, ∃ owner, JudgedName tree ruleId requirement.token owner)
    (otherJudged :
      ∀ requirement ∈ requirements, ∃ owner, JudgedName otherTree ruleId requirement.token owner) :
    List.Forall₂ ((ofTree path tree).SameReport (ofTree otherPath otherTree))
      (requirements.filterMap ((ofTree path tree).brokenRequirement? ruleId severity))
      (requirements.filterMap ((ofTree otherPath otherTree).brokenRequirement? ruleId severity)) := by
  induction requirements with
  | nil => exact .nil
  | cons requirement rest inductionHypothesis =>
      have restSame := inductionHypothesis
        (fun later inRest => judged later (List.mem_cons_of_mem _ inRest))
        (fun later inRest => otherJudged later (List.mem_cons_of_mem _ inRest))
      rcases brokenRequirement?_cases (ofTree path tree) (ofTree otherPath otherTree) tokenText_eq
          requirement with
        ⟨kept, otherKept⟩ | ⟨problem, otherProblem, broken, otherBroken, message_eq, fixText_eq⟩
      · rw [List.filterMap_cons_none kept, List.filterMap_cons_none otherKept]
        exact restSame
      · rw [List.filterMap_cons_some broken, List.filterMap_cons_some otherBroken]
        obtain ⟨owner, isJudged⟩ := judged requirement List.mem_cons_self
        obtain ⟨otherOwner, otherIsJudged⟩ := otherJudged requirement List.mem_cons_self
        have reports := reports_of_brokenRequirement? parsed isJudged.1 broken
        have otherReports := reports_of_brokenRequirement? otherParsed otherIsJudged.1 otherBroken
        exact .cons (reports.sameReport otherReports parsed otherParsed message_eq fixText_eq)
          restSame

end Document

namespace NoUndefined

variable
  {source other path otherPath : String}
  {tree otherTree : SyntaxTree}
  {tokens : Array Token}

/-- A use of `undefined` is harmless or not, whatever the layout. -/
theorem admits_laidOut
    (laidOut : tree.LaidOut source tokens)
    (exemptions : UndefinedExemptions)
    (node : NodeIndex) :
    admits exemptions (.ofTree otherPath (tree.respelled source tokens)) node =
      admits exemptions (.ofTree path tree) node := by
  have fnName_eq :
      (Document.ofTree otherPath (tree.respelled source tokens)).enclosingFnName? node =
        (Document.ofTree path tree).enclosingFnName? node := by
    simp only [Document.enclosingFnName?, Document.ofTree, laidOut.tokenText_eq]
    rfl
  have under_eq :
      ∀ parent,
        admitsUnder exemptions (.ofTree otherPath (tree.respelled source tokens)) node parent =
          admitsUnder exemptions (.ofTree path tree) node parent := by
    intro parent
    simp only [admitsUnder, admitsTarget, fnName_eq]
    simp only [Document.ofTree, laidOut.tokenText_eq, laidOut.isSelfDeref_eq,
      laidOut.targetName?_eq]
    rfl
  rw [admits, admits, funext under_eq]
  rfl

/-- The same uses of `undefined` are reported, whatever the layout. -/
theorem harmful_laidOut
    (laidOut : tree.LaidOut source tokens)
    (exemptions : UndefinedExemptions) :
    harmful exemptions (.ofTree otherPath (tree.respelled source tokens)) =
      harmful exemptions (.ofTree path tree) := by
  have uses_eq :
      uses (.ofTree otherPath (tree.respelled source tokens)) = uses (.ofTree path tree) := by
    simp only [uses, Document.ofTree, laidOut.respells.identifier?_eq]
    rfl
  rw [harmful, harmful, uses_eq, funext (admits_laidOut laidOut exemptions)]

theorem check_sameReport
    (parsed : SyntaxTree.parse source = .ok tree)
    (otherParsed : SyntaxTree.parse other = .ok otherTree)
    (sameNodes : otherTree.nodes = tree.nodes)
    (exemptions : UndefinedExemptions)
    (severity : Severity)
    (sameHarmful :
      harmful exemptions (.ofTree otherPath otherTree) = harmful exemptions (.ofTree path tree)) :
    List.Forall₂ ((Document.ofTree path tree).SameReport (.ofTree otherPath otherTree))
      (check exemptions severity (.ofTree path tree))
      (check exemptions severity (.ofTree otherPath otherTree)) := by
  have sameNode? : otherTree.node? = tree.node? := by
    funext index
    rw [SyntaxTree.node?, SyntaxTree.node?, sameNodes]
  rw [check_eq, check_eq, sameHarmful, List.forall₂_map_left_iff, List.forall₂_map_right_iff]
  show List.Forall₂ _ _ (List.filterMap otherTree.node? _)
  rw [sameNode?]
  refine List.forall₂_same.mpr fun node isHarmful => ?_
  obtain ⟨index, member, found⟩ := List.mem_filterMap.mp isHarmful
  have reports :
      (Document.ofTree path tree).Reports id severity node.main
        (nodeProblem severity (.ofTree path tree) node) :=
    reports_of_mem_harmful parsed member found
  have otherReports :
      (Document.ofTree otherPath otherTree).Reports id severity node.main
        (nodeProblem severity (.ofTree otherPath otherTree) node) :=
    reports_of_mem_harmful otherParsed (sameHarmful ▸ member) (sameNode? ▸ found)
  exact reports.sameReport otherReports parsed otherParsed rfl rfl

end NoUndefined

/-- The built-in rules report the same about the same tokens, whatever the layout. -/
theorem Rule.problems_sameReport
    {source other : String}
    {tree : SyntaxTree}
    {tokens : Array Token}
    {rule : Rule}
    (parsed : SyntaxTree.parse source = .ok tree)
    (otherParsed : SyntaxTree.parse other = .ok (tree.respelled other tokens))
    (laidOut : tree.LaidOut other tokens)
    (isBuiltin : rule ∈ builtin)
    (options : RuleOptions)
    (path otherPath : String) :
    List.Forall₂
      ((Document.ofTree path tree).SameReport (.ofTree otherPath (tree.respelled other tokens)))
      (rule.problems options (.ofTree path tree))
      (rule.problems options (.ofTree otherPath (tree.respelled other tokens))) := by
  have sameRequirements :
      rule.requirements options.table (.ofTree otherPath (tree.respelled other tokens)) =
        rule.requirements options.table (.ofTree path tree) :=
    laidOut.respells.requirements_eq rule options.table
  -- The naming rules report the requirements that names break.
  have namingSame
      (problems_eq :
        ∀ document, rule.problems options document =
          (rule.requirements options.table document).filterMap
            (document.brokenRequirement? rule.id options.severity)) :
      List.Forall₂
        ((Document.ofTree path tree).SameReport (.ofTree otherPath (tree.respelled other tokens)))
        (rule.problems options (.ofTree path tree))
        (rule.problems options (.ofTree otherPath (tree.respelled other tokens))) := by
    rw [problems_eq, problems_eq, sameRequirements]
    apply Document.brokenRequirements_sameReport parsed otherParsed laidOut.tokenText_eq
    · intro requirement required
      exact judgedName required
    · intro requirement required
      rw [← sameRequirements] at required
      exact judgedName required
  simp only [builtin, List.mem_cons, List.not_mem_nil, or_false] at isBuiltin
  rcases isBuiltin with rfl | rfl | rfl
  · exact namingSame fun document => DeclarationNaming.check_eq _ _ document
  · exact namingSame fun document => FieldNaming.check_eq _ _ document
  · exact NoUndefined.check_sameReport parsed otherParsed rfl _ _
      (NoUndefined.harmful_laidOut laidOut _)

/--
Layout does not matter: sources with the same token texts are parsed to the same
nodes, their declarations are of the same kinds, and each built-in rule reports
the same problems about the same tokens, one by one.
-/
theorem Rule.layout_irrelevant
    {source other : String}
    {tree otherTree : SyntaxTree}
    (parsed : SyntaxTree.parse source = .ok tree)
    (otherParsed : SyntaxTree.parse other = .ok otherTree)
    (sameTexts : otherTree.tokens.toList.map Token.text = tree.tokens.toList.map Token.text) :
    otherTree.nodes = tree.nodes ∧
      (∀ site, otherTree.declarationKind? site = tree.declarationKind? site) ∧
        ∀ rule ∈ builtin, ∀ options path otherPath,
          List.Forall₂ ((Document.ofTree path tree).SameReport (.ofTree otherPath otherTree))
            (rule.problems options (.ofTree path tree))
            (rule.problems options (.ofTree otherPath otherTree)) := by
  have laidOut := SyntaxTree.laidOut_of_texts_eq parsed otherParsed sameTexts
  have treeEq := SyntaxTree.eq_respelled_of_texts_eq parsed otherParsed sameTexts
  generalize otherTree.tokens = tokens at laidOut treeEq
  subst treeEq
  refine ⟨rfl, laidOut.respells.declarationKind?_eq, ?_⟩
  intro rule isBuiltin options path otherPath
  exact problems_sameReport parsed otherParsed laidOut isBuiltin options path otherPath

/-- A name and a use of `undefined`, on one line and on several with comments. -/
theorem Rule.layout_irrelevant_comments :
    ∃ tree otherTree,
      SyntaxTree.parse "const A_b=undefined;" = .ok tree ∧
        SyntaxTree.parse "const // note\n\tA_b = //\n\n undefined ;" = .ok otherTree ∧
          otherTree.tokens.toList.map Token.text = tree.tokens.toList.map Token.text ∧
            (builtin.flatMap fun rule =>
              (rule.problems ⟨.error, []⟩ (.ofTree "a.zig" tree)).map Problem.ruleId) =
                [DeclarationNaming.id, NoUndefined.id] ∧
              ∀ rule ∈ builtin,
                List.Forall₂ ((Document.ofTree "a.zig" tree).SameReport (.ofTree "b.zig" otherTree))
                  (rule.problems ⟨.error, []⟩ (.ofTree "a.zig" tree))
                  (rule.problems ⟨.error, []⟩ (.ofTree "b.zig" otherTree)) := by
  have evaluated :
      ((SyntaxTree.parse "const A_b=undefined;").toOption.bind fun tree =>
        (SyntaxTree.parse "const // note\n\tA_b = //\n\n undefined ;").toOption.map
          fun otherTree =>
            (otherTree.tokens.toList.map Token.text == tree.tokens.toList.map Token.text,
              builtin.flatMap fun rule =>
                (rule.problems ⟨.error, []⟩ (.ofTree "a.zig" tree)).map Problem.ruleId)) =
        some (true, [DeclarationNaming.id, NoUndefined.id]) := by
    decide +kernel
  obtain ⟨tree, hasTree, evaluated⟩ := Option.bind_eq_some_iff.mp evaluated
  obtain ⟨otherTree, hasOtherTree, evaluated⟩ := Option.map_eq_some_iff.mp evaluated
  obtain ⟨sameTexts, reported⟩ := Prod.mk.inj evaluated
  have sameTexts := beq_iff_eq.mp sameTexts
  have parsed := eq_ok_of_toOption hasTree
  have otherParsed := eq_ok_of_toOption hasOtherTree
  refine ⟨tree, otherTree, parsed, otherParsed, sameTexts, reported, ?_⟩
  intro rule isBuiltin
  exact (layout_irrelevant parsed otherParsed sameTexts).2.2 rule isBuiltin _ _ _

end ZigLint
