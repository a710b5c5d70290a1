import ZigLint.Proofs.Rule.Requirements
import ZigLint.Proofs.Syntax.RenamedTree

namespace ZigLint

/-!
# The tokens that rules report

Every problem of a built-in rule is about one identifier that is written as a
word: the naming rules report names that they judge, and the rule on `undefined`
reports identifiers of the tree. Names and identifiers never share a token, so no
token is reported twice, neither by one rule nor by two of them.
-/

/-- The rule may report the token: it judges the name, or looks at the identifier. -/
inductive SyntaxTree.Concerns (tree : SyntaxTree) (token : TokenIndex) :
    (ruleId : String) → Prop where
  | name
      {ruleId : String}
      {owner : NodeIndex} :
      JudgedName tree ruleId token owner →
      Concerns tree token ruleId
  | identifier
      {index : NodeIndex}
      {node : Node} :
      tree.node? index = some node →
      node.form = .identifier →
      node.main = token →
      Concerns tree token NoUndefined.id

/-- A token concerns one rule only. -/
theorem SyntaxTree.Concerns.rule_unique
    {source : String}
    {tree : SyntaxTree}
    {token : TokenIndex}
    {ruleId otherId : String}
    (parsed : parse source = .ok tree)
    (concerns : tree.Concerns token ruleId)
    (otherConcerns : tree.Concerns token otherId) :
    ruleId = otherId := by
  cases concerns with
  | name judged =>
      obtain ⟨declares, tag, tagEq, judges⟩ := judged
      cases otherConcerns with
      | name otherJudged =>
          obtain ⟨otherDeclares, otherTag, otherTagEq, otherJudges⟩ := otherJudged
          obtain rfl := declares.owner_unique parsed otherDeclares
          obtain rfl : tag = otherTag := Option.some.inj (tagEq.symm.trans otherTagEq)
          exact Option.some.inj (judges.symm.trans otherJudges)
      | identifier found isIdentifier mainEq =>
          exact (declares.ne_identifier parsed found isIdentifier mainEq).elim
  | identifier found isIdentifier mainEq =>
      cases otherConcerns with
      | name otherJudged =>
          exact (otherJudged.1.ne_identifier parsed found isIdentifier mainEq).elim
      | identifier => rfl

/-- The problem is about a word that is an identifier, and its fix covers this word. -/
structure Document.Reports
    (document : Document)
    (ruleId : String)
    (severity : Severity)
    (token : TokenIndex)
    (problem : Problem) :
    Prop where
  isIdentifier : document.tree.tokenKind token = .identifier
  isWord : Lexeme.IsWord (document.tree.tokenText token).toList
  ruleId_eq : problem.ruleId = ruleId
  severity_eq : problem.severity = severity
  start_eq : problem.start = document.location (document.tree.tokenSpan token).start
  stop_eq : problem.stop = document.location ((document.tree.tokenSpan token).stop - 1)
  fix_covers :
    ∀ fix, problem.fix? = some fix →
      fix.start = (document.tree.tokenSpan token).start ∧
        fix.stop = (document.tree.tokenSpan token).stop

namespace Document

variable
  {source : String}
  {document : Document}
  {ruleId : String}
  {severity : Severity}
  {problem : Problem}

/-- A problem about the span of a word is reported at that word. -/
theorem reports_problem
    {token : TokenIndex}
    {message : String}
    {fix? : Option Fix}
    (isIdentifier : document.tree.tokenKind token = .identifier)
    (isWord : Lexeme.IsWord (document.tree.tokenText token).toList)
    (fix_covers :
      ∀ fix, fix? = some fix →
        fix.start = (document.tree.tokenSpan token).start ∧
          fix.stop = (document.tree.tokenSpan token).stop) :
    document.Reports ruleId severity token
      (document.problem ruleId severity (document.tree.tokenSpan token) message fix?) :=
  ⟨isIdentifier, isWord, rfl, rfl, problem_start ..,
    problem_stop _ _ _ _ _ (SyntaxTree.start_lt_stop_of_isWord isWord), fix_covers⟩

/-- A broken requirement is reported at the name that it is about. -/
theorem reports_of_brokenRequirement?
    {requirement : NameRequirement}
    {owner : NodeIndex}
    (parsed : SyntaxTree.parse source = .ok document.tree)
    (declares : document.tree.DeclaresName requirement.token owner)
    (broken : document.brokenRequirement? ruleId severity requirement = some problem) :
    document.Reports ruleId severity requirement.token problem := by
  have isName := declares.isName parsed
  have fix_covers :
      ∀ fix, problem.fix? = some fix →
        fix.start = (document.tree.tokenSpan requirement.token).start ∧
          fix.stop = (document.tree.tokenSpan requirement.token).stop := by
    intro fix hasFix
    have corrects := fix_of_brokenRequirement?_iff.mp
      (Option.bind_eq_some_iff.mpr ⟨problem, broken, hasFix⟩)
    rw [corrects.fix_eq]
    exact ⟨rfl, rfl⟩
  rw [brokenRequirement?, nameProblem?] at broken
  split at broken
  · cases broken
  · rename_i breaks
    cases broken
    simp only [Bool.or_eq_true, not_or, Bool.not_eq_true] at breaks
    refine reports_problem ?_ (SyntaxTree.isWord_of_isName parsed isName breaks.1) fix_covers
    rw [SyntaxTree.tokenKind, ← SyntaxTree.kindAt_kinds]
    exact isName.isIdentifier

end Document

namespace NoUndefined

variable
  {source : String}
  {exemptions : UndefinedExemptions}
  {severity : Severity}
  {document : Document}

/-- The uses of `undefined` that the rule does not admit. -/
def harmful (exemptions : UndefinedExemptions) (document : Document) : List NodeIndex :=
  (uses document).filter fun node => !admits exemptions document node

/-- The problem of a use of `undefined`, given the node itself. -/
def nodeProblem (severity : Severity) (document : Document) (node : Node) : Problem :=
  document.problem id severity (document.tree.headSpan node.toNodeHead)
    "Take care when using `undefined`" none

/-- The problems of the rule are those of the nodes that it does not admit. -/
theorem check_eq
    (exemptions : UndefinedExemptions)
    (severity : Severity)
    (document : Document) :
    check exemptions severity document =
      ((harmful exemptions document).filterMap document.tree.node?).map
        (nodeProblem severity document) := by
  rw [check, List.map_filterMap]
  refine List.filterMap_congr fun node _ => ?_
  rw [problem?, SyntaxTree.nodeSpan?, Option.map_map]
  rfl

theorem harmful_nodup
    (exemptions : UndefinedExemptions)
    (document : Document) :
    (harmful exemptions document).Nodup :=
  .sublist List.filter_sublist (.sublist List.filter_sublist (document.nodesWithTag_nodup _))

/-- What the rule does not admit is an identifier with the text `undefined`. -/
theorem identifier_of_mem_harmful
    {index : NodeIndex}
    {node : Node}
    (member : index ∈ harmful exemptions document)
    (found : document.tree.node? index = some node) :
    node.form = .identifier ∧ document.tree.tokenText node.main = "undefined" := by
  have isUse := (List.mem_filter.mp (List.mem_filter.mp member).1).2
  have textEq : document.tree.identifier? index = some "undefined" := by simpa using isUse
  rw [SyntaxTree.identifier?, found, Option.bind_eq_bind, Option.bind_some] at textEq
  split at textEq
  · rename_i isIdentifier
    exact ⟨isIdentifier, Option.some.inj textEq⟩
  · cases textEq

/-- A use of `undefined` is reported at its only token. -/
theorem reports_of_mem_harmful
    {index : NodeIndex}
    {node : Node}
    (parsed : SyntaxTree.parse source = .ok document.tree)
    (member : index ∈ harmful exemptions document)
    (found : document.tree.node? index = some node) :
    document.Reports id severity node.main (nodeProblem severity document node) := by
  obtain ⟨isIdentifier, textEq⟩ := identifier_of_mem_harmful member found
  obtain ⟨firstEq, lastEq⟩ := SyntaxTree.identifier_leaf parsed found isIdentifier
  have isWord : Lexeme.IsWord (document.tree.tokenText node.main).toList := by
    rw [textEq]
    exact ⟨'u', "ndefined".toList, by decide, by decide, by decide⟩
  have spanEq :
      document.tree.headSpan node.toNodeHead = document.tree.tokenSpan node.main := by
    rw [SyntaxTree.headSpan, firstEq, lastEq, Span.cover, Nat.min_self, Nat.max_self]
  rw [nodeProblem, spanEq]
  refine Document.reports_problem ?_ isWord nofun
  obtain ⟨token, tokenFound, tokenText, -⟩ := SyntaxTree.exists_token_of_isWord isWord
  obtain ⟨-, pieces, isCut, tokensEq⟩ := SyntaxTree.parse_pieces parsed
  have isToken : token ∈ Piece.tokensFrom 0 pieces := by
    rw [← tokensEq, Array.mem_toList_iff]
    exact Array.mem_of_getElem? tokenFound
  have kindEq := Piece.kind_of_isWord isCut isToken (tokenText ▸ isWord)
  rw [SyntaxTree.tokenKind, tokenFound, Option.map_some, Option.getD_some, kindEq, ← tokenText,
    textEq]
  decide

/-- The rule reports no token twice. -/
theorem mains_nodup
    (parsed : SyntaxTree.parse source = .ok document.tree) :
    (((harmful exemptions document).filterMap document.tree.node?).map fun node =>
      node.main).Nodup := by
  let owns (token : TokenIndex) (index : NodeIndex) : Prop :=
    ∃ node, document.tree.node? index = some node ∧ node.ownToken? = some token
  refine nodup_tokens owns ?_ (harmful_nodup exemptions document) ?_
  · rintro token first second ⟨_, firstFound, firstOwns⟩ ⟨_, secondFound, secondOwns⟩
    exact SyntaxTree.ownToken_unique parsed firstFound secondFound firstOwns secondOwns
  · intro index member node found
    obtain ⟨isIdentifier, -⟩ := identifier_of_mem_harmful member found
    exact ⟨node, found, if_pos isIdentifier⟩

end NoUndefined

namespace Document.Reports

variable
  {source path : String}
  {tree : SyntaxTree}
  {ruleId otherId : String}
  {severity otherSeverity : Severity}
  {token otherToken : TokenIndex}
  {problem other : Problem}

/-- The reported word stands in the source, where it is an identifier token. -/
theorem exists_token
    (reports : (ofTree path tree).Reports ruleId severity token problem)
    (parsed : SyntaxTree.parse source = .ok tree) :
    ∃ entry front back,
      entry ∈ tree.tokens ∧
        entry.kind = .identifier ∧
          tree.tokenText token = entry.text ∧
            tree.tokenSpan token = entry.span ∧
              tree.source.toList = front ++ (entry.text.toList ++ back) ∧
                entry.span.start = Text.byteLength front ∧
                  entry.span.stop = Text.byteLength front + Text.byteLength entry.text.toList := by
  have isWord : Lexeme.IsWord (tree.tokenText token).toList := reports.isWord
  obtain ⟨entry, found, textEq, spanEq⟩ := SyntaxTree.exists_token_of_isWord isWord
  obtain ⟨sourceEq, pieces, isCut, tokensEq⟩ := SyntaxTree.parse_pieces parsed
  have isToken : entry ∈ Piece.tokensFrom 0 pieces := by
    rw [← tokensEq, Array.mem_toList_iff]
    exact Array.mem_of_getElem? found
  obtain ⟨front, back, joinEq, offsetEq⟩ := Piece.exists_split_of_mem_tokensFrom isToken
  rw [isCut.join_eq, ← sourceEq] at joinEq
  rw [Nat.zero_add] at offsetEq
  have isIdentifier : entry.kind = .identifier := by
    have kindEq : tree.tokenKind token = .identifier := reports.isIdentifier
    rwa [SyntaxTree.tokenKind, found] at kindEq
  refine ⟨entry, front, back, Array.mem_of_getElem? found, isIdentifier, textEq, spanEq, joinEq,
    offsetEq, ?_⟩
  rw [← offsetEq, ← Text.utf8ByteSize_ofList, String.ofList_toList]
  rfl

/-- A problem starts at the first byte of the reported word and stops at the last one. -/
theorem offsets
    (reports : (ofTree path tree).Reports ruleId severity token problem)
    (parsed : SyntaxTree.parse source = .ok tree) :
    problem.start.offset = (tree.tokenSpan token).start ∧
      problem.stop.offset + 1 = (tree.tokenSpan token).stop ∧
        (tree.tokenSpan token).stop ≤ tree.source.utf8ByteSize := by
  obtain ⟨entry, front, back, -, -, -, spanEq, sourceEq, startEq, stopEq⟩ :=
    reports.exists_token parsed
  have startLt : (tree.tokenSpan token).start < (tree.tokenSpan token).stop :=
    SyntaxTree.start_lt_stop_of_isWord reports.isWord
  have lengthEq : (LineMap.ofSource tree.source).length =
      Text.byteLength front + (Text.byteLength entry.text.toList + Text.byteLength back) := by
    rw [LineMap.length_ofSource, sourceEq, Text.byteLength_append, Text.byteLength_append]
  have inside : (tree.tokenSpan token).stop ≤ (LineMap.ofSource tree.source).length := by
    rw [spanEq, stopEq, lengthEq]
    omega
  have startOffset : problem.start.offset = (tree.tokenSpan token).start := by
    rw [reports.start_eq]
    exact LineMap.offset_location (Nat.le_trans (Nat.le_of_lt startLt) inside)
  have stopOffset : problem.stop.offset = (tree.tokenSpan token).stop - 1 := by
    rw [reports.stop_eq]
    exact LineMap.offset_location (Nat.le_trans (Nat.sub_le _ 1) inside)
  exact ⟨startOffset, by omega, inside⟩

/-- The bytes of a problem are the text of the reported word. -/
theorem slice?_eq
    (reports : (ofTree path tree).Reports ruleId severity token problem)
    (parsed : SyntaxTree.parse source = .ok tree) :
    Text.slice? tree.source.toList problem.start.offset (problem.stop.offset + 1) =
      some (tree.tokenText token).toList := by
  obtain ⟨entry, front, back, -, -, textEq, spanEq, sourceEq, startEq, stopEq⟩ :=
    reports.exists_token parsed
  obtain ⟨startOffset, stopOffset, -⟩ := reports.offsets parsed
  rw [startOffset, stopOffset, spanEq, startEq, stopEq, sourceEq, textEq]
  exact Text.slice?_append front entry.text.toList back

/-- A word holds no line break, so a problem starts and stops on one line. -/
theorem same_line
    (reports : (ofTree path tree).Reports ruleId severity token problem)
    (parsed : SyntaxTree.parse source = .ok tree) :
    problem.start.line = problem.stop.line := by
  obtain ⟨entry, front, back, -, -, textEq, spanEq, sourceEq, startEq, stopEq⟩ :=
    reports.exists_token parsed
  obtain ⟨-, -, inside⟩ := reports.offsets parsed
  have isWord : Lexeme.IsWord (tree.tokenText token).toList := reports.isWord
  have startLt := SyntaxTree.start_lt_stop_of_isWord isWord
  have noBreak : entry.text.toList.count '\n' = 0 := by
    rw [textEq] at isWord
    exact List.count_eq_zero.mpr (Lexeme.not_mem_of_isWord isWord (by decide))
  let map := LineMap.ofSource tree.source
  -- The place behind the word is on the line on which the word starts.
  have behindLine :
      (map.location (tree.tokenSpan token).stop).line =
        (map.location (tree.tokenSpan token).start).line := by
    have startLine := LineMap.line_location sourceEq
    rw [← List.append_assoc] at sourceEq
    have stopLine := LineMap.line_location sourceEq
    rw [Text.byteLength_append, List.count_append, noBreak, Nat.add_zero] at stopLine
    rw [spanEq, startEq, stopEq, startLine, stopLine]
  have startLe :
      (map.location (tree.tokenSpan token).start).line ≤
        (map.location ((tree.tokenSpan token).stop - 1)).line :=
    LineMap.line_le (by omega) (Nat.le_trans (Nat.sub_le _ 1) inside)
  have leBehind :
      (map.location ((tree.tokenSpan token).stop - 1)).line ≤
        (map.location (tree.tokenSpan token).stop).line :=
    LineMap.line_le (Nat.sub_le _ 1) inside
  rw [reports.start_eq, reports.stop_eq]
  exact Nat.le_antisymm startLe (behindLine ▸ leBehind)

/-- Problems about different words start at different places. -/
theorem token_unique
    (reports : (ofTree path tree).Reports ruleId severity token problem)
    (otherReports : (ofTree path tree).Reports otherId otherSeverity otherToken other)
    (parsed : SyntaxTree.parse source = .ok tree)
    (sameOffset : problem.start.offset = other.start.offset) :
    token = otherToken := by
  rw [(reports.offsets parsed).1, (otherReports.offsets parsed).1] at sameOffset
  exact SyntaxTree.eq_of_start_eq parsed reports.isWord otherReports.isWord sameOffset

end Document.Reports

/-- Reports about different tokens start at different places. -/
theorem Document.reports_pairwise
    {source path : String}
    {tree : SyntaxTree}
    {ruleId : String}
    {severity : Severity}
    {items : List α}
    {token : α → TokenIndex}
    {report? : α → Option Problem}
    (parsed : SyntaxTree.parse source = .ok tree)
    (distinct : (items.map token).Nodup)
    (reports :
      ∀ item ∈ items, ∀ problem, report? item = some problem →
        (ofTree path tree).Reports ruleId severity (token item) problem) :
    (items.filterMap report?).Pairwise fun earlier later =>
      earlier.start.offset ≠ later.start.offset := by
  rw [List.pairwise_filterMap]
  refine (List.pairwise_map.mp distinct).imp_of_mem ?_
  intro first second isFirst isSecond tokensDiffer problem reported other otherReported sameOffset
  exact tokensDiffer ((reports first isFirst problem reported).token_unique
    (reports second isSecond other otherReported) parsed sameOffset)

section Naming

variable
  {source path ruleId : String}
  {tree : SyntaxTree}
  {severity : Severity}
  {requirements : List NameRequirement}

/-- What breaks a requirement on a judged name is a report about that name. -/
theorem Document.exists_report_of_requirement
    {problem : Problem}
    (parsed : SyntaxTree.parse source = .ok tree)
    (judged : ∀ requirement ∈ requirements, ∃ owner, JudgedName tree ruleId requirement.token owner)
    (isProblem :
      problem ∈ requirements.filterMap ((ofTree path tree).brokenRequirement? ruleId severity)) :
    ∃ token,
      tree.Concerns token ruleId ∧ (ofTree path tree).Reports ruleId severity token problem := by
  obtain ⟨requirement, required, broken⟩ := List.mem_filterMap.mp isProblem
  obtain ⟨owner, isJudged⟩ := judged requirement required
  exact ⟨requirement.token, .name isJudged,
    reports_of_brokenRequirement? parsed isJudged.1 broken⟩

/-- Requirements on different names are broken at different places. -/
theorem Document.brokenRequirements_pairwise
    (parsed : SyntaxTree.parse source = .ok tree)
    (judged : ∀ requirement ∈ requirements, ∃ owner, JudgedName tree ruleId requirement.token owner)
    (distinct : (requirements.map NameRequirement.token).Nodup) :
    (requirements.filterMap ((ofTree path tree).brokenRequirement? ruleId severity)).Pairwise
      fun earlier later => earlier.start.offset ≠ later.start.offset := by
  have reports :
      ∀ requirement ∈ requirements, ∀ problem,
        (ofTree path tree).brokenRequirement? ruleId severity requirement = some problem →
          (ofTree path tree).Reports ruleId severity requirement.token problem := by
    intro requirement required problem broken
    obtain ⟨owner, isJudged⟩ := judged requirement required
    exact reports_of_brokenRequirement? parsed isJudged.1 broken
  exact reports_pairwise parsed distinct reports

end Naming

/-- Uses of `undefined` are reported at different places. -/
theorem NoUndefined.check_pairwise
    {source path : String}
    {tree : SyntaxTree}
    {exemptions : UndefinedExemptions}
    {severity : Severity}
    (parsed : SyntaxTree.parse source = .ok tree) :
    (check exemptions severity (.ofTree path tree)).Pairwise fun earlier later =>
      earlier.start.offset ≠ later.start.offset := by
  have reports :
      ∀ node ∈ (harmful exemptions (.ofTree path tree)).filterMap tree.node?, ∀ problem,
        some (nodeProblem severity (.ofTree path tree) node) = some problem →
          (Document.ofTree path tree).Reports id severity node.main problem := by
    rintro node isHarmful problem ⟨⟩
    obtain ⟨index, member, found⟩ := List.mem_filterMap.mp isHarmful
    exact reports_of_mem_harmful parsed member found
  rw [check_eq, ← List.filterMap_eq_map]
  exact Document.reports_pairwise parsed (mains_nodup parsed) reports

namespace Rule

variable
  {source path : String}
  {tree : SyntaxTree}
  {rule : Rule}
  {options : RuleOptions}

/-- A problem of a built-in rule is a report about a token that concerns the rule. -/
theorem exists_report
    {problem : Problem}
    (parsed : SyntaxTree.parse source = .ok tree)
    (isBuiltin : rule ∈ builtin)
    (isProblem : problem ∈ rule.problems options (.ofTree path tree)) :
    ∃ token,
      tree.Concerns token rule.id ∧
        (Document.ofTree path tree).Reports rule.id options.severity token problem := by
  simp only [builtin, List.mem_cons, List.not_mem_nil, or_false] at isBuiltin
  rcases isBuiltin with rfl | rfl | rfl
  · change problem ∈ DeclarationNaming.check _ _ _ at isProblem
    rw [DeclarationNaming.check_eq] at isProblem
    exact Document.exists_report_of_requirement parsed
      (fun _ required => DeclarationNaming.judgedName required) isProblem
  · change problem ∈ FieldNaming.check _ _ _ at isProblem
    rw [FieldNaming.check_eq] at isProblem
    exact Document.exists_report_of_requirement parsed
      (fun _ required => FieldNaming.judgedName required) isProblem
  · change problem ∈ NoUndefined.check _ _ _ at isProblem
    rw [NoUndefined.check_eq] at isProblem
    obtain ⟨node, isHarmful, rfl⟩ := List.mem_map.mp isProblem
    obtain ⟨index, member, found⟩ := List.mem_filterMap.mp isHarmful
    obtain ⟨isIdentifier, -⟩ := NoUndefined.identifier_of_mem_harmful member found
    exact ⟨node.main, .identifier found isIdentifier rfl,
      NoUndefined.reports_of_mem_harmful parsed member found⟩

/-- No two problems of a built-in rule start at the same place. -/
theorem problems_pairwise
    (parsed : SyntaxTree.parse source = .ok tree)
    (isBuiltin : rule ∈ builtin) :
    (rule.problems options (.ofTree path tree)).Pairwise fun earlier later =>
      earlier.start.offset ≠ later.start.offset := by
  simp only [builtin, List.mem_cons, List.not_mem_nil, or_false] at isBuiltin
  rcases isBuiltin with rfl | rfl | rfl
  · change (DeclarationNaming.check _ _ _).Pairwise _
    rw [DeclarationNaming.check_eq]
    exact Document.brokenRequirements_pairwise parsed
      (fun _ required => DeclarationNaming.judgedName required)
      (DeclarationNaming.tokens_nodup parsed)
  · change (FieldNaming.check _ _ _).Pairwise _
    rw [FieldNaming.check_eq]
    exact Document.brokenRequirements_pairwise parsed
      (fun _ required => FieldNaming.judgedName required) (FieldNaming.tokens_nodup parsed)
  · exact NoUndefined.check_pairwise parsed

end Rule

end ZigLint
