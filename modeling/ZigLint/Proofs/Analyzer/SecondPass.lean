import ZigLint.Proofs.Analyzer.FixDocument
import ZigLint.Proofs.Rule.RespelledRequirements
import ZigLint.Proofs.Suppression.RenamedTwins
import ZigLint.Proofs.Text.Lines

namespace ZigLint

/-!
# A second pass

Fixing renames declarations and not their uses, so a name that is used
elsewhere may afterwards stand for something else, or for nothing. What a
second pass finds to fix is therefore only what the first pass was not asked
for: a name that was judged by the same style before has been settled. When no
expression mentions a renamed name, nothing is left to fix.
-/

open Piece (Renamed join tokensFrom)

namespace Piece

variable
  {tree fixedTree : SyntaxTree}
  {names : Nat → Option (List Char)}
  {pieces renamed : List Piece}
  {name : TokenIndex}

theorem Renamed.fixedToken_eq
    (isRenamed : Renamed names 0 false pieces renamed)
    (tokensEq : tree.tokens.toList = tokensFrom 0 pieces)
    (fixedTokensEq : fixedTree.tokens.toList = tokensFrom 0 renamed)
    (name : TokenIndex) :
    (fixedTree.tokens[name.val]?).map (fun token => (token.kind, token.text)) =
      (tree.tokens[name.val]?).map fun token => renamedToken token (names name.val) := by
  rw [← Array.getElem?_toList, ← Array.getElem?_toList, tokensEq, fixedTokensEq]
  exact isRenamed.getElem?_tokens 0 0 name.val

theorem Renamed.exists_fixedToken
    {token : Token}
    (isRenamed : Renamed names 0 false pieces renamed)
    (tokensEq : tree.tokens.toList = tokensFrom 0 pieces)
    (fixedTokensEq : fixedTree.tokens.toList = tokensFrom 0 renamed)
    (found : tree.tokens[name.val]? = some token) :
    ∃ fixedToken, fixedTree.tokens[name.val]? = some fixedToken := by
  have tokenEq := isRenamed.fixedToken_eq tokensEq fixedTokensEq name
  rw [found, Option.map_some] at tokenEq
  obtain ⟨fixedToken, fixedFound, -⟩ := Option.map_eq_some_iff.mp tokenEq
  exact ⟨fixedToken, fixedFound⟩

/-- A token of renamed pieces has its new name as text, or its old text. -/
theorem Renamed.tokenText_eq
    (isRenamed : Renamed names 0 false pieces renamed)
    (tokensEq : tree.tokens.toList = tokensFrom 0 pieces)
    (fixedTokensEq : fixedTree.tokens.toList = tokensFrom 0 renamed)
    (named_found :
      ∀ word, names name.val = some word → ∃ token, tree.tokens[name.val]? = some token) :
    fixedTree.tokenText name =
      ((names name.val).map String.ofList).getD (tree.tokenText name) := by
  have textEq := congrArg (Option.map Prod.snd)
    (isRenamed.fixedToken_eq tokensEq fixedTokensEq name)
  rw [Option.map_map, Option.map_map] at textEq
  rw [SyntaxTree.tokenText, show (fixedTree.tokens[name.val]?).map Token.text = _ from textEq,
    SyntaxTree.tokenText]
  cases named : names name.val with
  | none => cases tree.tokens[name.val]? <;> rfl
  | some word =>
      obtain ⟨token, found⟩ := named_found word named
      rw [found]
      rfl

end Piece

namespace Analyzer

variable
  {analyzer : Analyzer}
  {path source : String}
  {tree fixedTree : SyntaxTree}
  {document : Document}

/-- A rule of the analyzer asks a name of the document to follow a style. -/
def Asks
    (analyzer : Analyzer)
    (document : Document)
    (ruleId : String)
    (name : TokenIndex)
    (style : NamingStyle) :
    Prop :=
  ∃ judgement ∈ analyzer.judged document,
    judgement.1.id = ruleId ∧ judgement.2.token = name ∧ judgement.2.style = style

theorem judgement_unique
    {first second : Rule × NameRequirement}
    (parsed : SyntaxTree.parse source = .ok document.tree)
    (ofBuiltin : analyzer.OfBuiltin)
    (isFirst : first ∈ analyzer.judged document)
    (isSecond : second ∈ analyzer.judged document)
    (sameToken : first.2.token = second.2.token) :
    first = second :=
  List.inj_on_of_nodup_map (judged_nodup parsed ofBuiltin.idsNodup) isFirst isSecond sameToken

/-- The new name of a judged name is what its style makes of it, if it is renamed. -/
theorem newName?_of_judged
    {judgement : Rule × NameRequirement}
    (parsed : SyntaxTree.parse source = .ok document.tree)
    (ofBuiltin : analyzer.OfBuiltin)
    (isJudged : judgement ∈ analyzer.judged document) :
    (∃ fix, Renames document judgement fix ∧
      Renaming.newName? (analyzer.renamings document) judgement.2.token.val =
        some (judgement.2.style.convert (document.tree.tokenText judgement.2.token)).toList) ∨
      ((∀ fix, ¬ Renames document judgement fix) ∧
        Renaming.newName? (analyzer.renamings document) judgement.2.token.val = none) := by
  have distinct := (allows_renamings parsed ofBuiltin).distinct
  obtain ⟨_, required⟩ := mem_judged.mp isJudged
  have runs := (mem_requirements required).1
  cases renamed : analyzer.rename? document judgement with
  | some fix =>
      have renames := (rename?_eq_some_iff runs).mp renamed
      refine .inl ⟨fix, renames, ?_⟩
      rw [Renaming.newName?_eq_some_iff distinct]
      refine List.mem_filterMap.mpr ⟨judgement, isJudged, ?_⟩
      rw [renaming?, renamed, renames.fix_eq]
      rfl
  | none =>
      refine .inr ⟨fun fix renames => ?_, ?_⟩
      · rw [(rename?_eq_some_iff runs).mpr renames] at renamed
        cases renamed
      · rw [Option.eq_none_iff_forall_not_mem]
        intro word named
        rw [Option.mem_def, Renaming.newName?_eq_some_iff distinct] at named
        obtain ⟨other, isOther, found⟩ := List.mem_filterMap.mp named
        obtain ⟨fix, otherRenamed, entryEq⟩ := Option.map_eq_some_iff.mp found
        have sameToken : other.2.token = judgement.2.token := congrArg Renaming.name entryEq
        obtain rfl := judgement_unique parsed ofBuiltin isOther isJudged sameToken
        rw [renamed] at otherRenamed
        cases otherRenamed

/-- What fixing does to the tokens and comments of a document. -/
structure FixedFrom (analyzer : Analyzer) (document fixed : Document) : Prop where
  suppressions_eq : fixed.suppressions = document.suppressions
  line_eq :
    ∀ (name : TokenIndex) (token : Token), document.tree.tokens[name.val]? = some token →
      (fixed.tokenLocation name).line = (document.tokenLocation name).line
  text_eq :
    ∀ name : TokenIndex,
      fixed.tree.tokenText name =
        ((Renaming.newName? (analyzer.renamings document) name.val).map String.ofList).getD
          (document.tree.tokenText name)

/-- The output of a pass is the text of the renamed pieces, and so are its tokens. -/
theorem fixedTree_pieces
    (parsed : SyntaxTree.parse source = .ok document.tree)
    (ofBuiltin : analyzer.OfBuiltin)
    (parsedAgain : SyntaxTree.parse (analyzer.fixDocument document).output = .ok fixedTree) :
    ∃ pieces renamed,
      Cut source.toList pieces ∧
        document.tree.tokens.toList = tokensFrom 0 pieces ∧
          Renamed (Renaming.newName? (analyzer.renamings document)) 0 false pieces renamed ∧
            fixedTree.source = String.ofList (join renamed) ∧
              fixedTree.tokens.toList = tokensFrom 0 renamed := by
  obtain ⟨pieces, renamed, isCut, tokensEq, isRenamed, outcomeEq⟩ :=
    fixDocument_pieces parsed ofBuiltin
  rw [outcomeEq] at parsedAgain
  refine ⟨pieces, renamed, isCut, tokensEq, isRenamed,
    (SyntaxTree.parse_pieces parsedAgain).1, ?_⟩
  obtain ⟨tokens, _, _, scanned, -, rfl⟩ := SyntaxTree.parse_eq_ok_iff.mp parsedAgain
  rw [SyntaxTree.Allows.scan_renamed isCut isRenamed] at scanned
  cases scanned
  rfl

/-- The output of a pass that can be parsed is fixed from the source. -/
theorem fixedFrom_fixDocument
    (parsed : SyntaxTree.parse source = .ok tree)
    (ofBuiltin : analyzer.OfBuiltin)
    (parsedAgain :
      SyntaxTree.parse (analyzer.fixDocument (.ofTree path tree)).output = .ok fixedTree) :
    analyzer.FixedFrom (.ofTree path tree) (.ofTree path fixedTree) := by
  have parsedDocument : SyntaxTree.parse source = .ok (Document.ofTree path tree).tree := parsed
  have allows := allows_renamings parsedDocument ofBuiltin
  obtain ⟨pieces, renamed, isCut, tokensEq, isRenamed, fixedSourceEq, fixedTokensEq⟩ :=
    fixedTree_pieces parsedDocument ofBuiltin parsedAgain
  have tokensEq : tree.tokens.toList = tokensFrom 0 pieces := tokensEq
  have sourceEq := (SyntaxTree.parse_pieces parsed).1
  constructor
  · show SuppressionTable.ofSource fixedTree.source = SuppressionTable.ofSource tree.source
    rw [sourceEq, fixedSourceEq]
    exact isRenamed.suppressions_eq isCut
  · intro name token found
    have found : tree.tokens[name.val]? = some token := found
    obtain ⟨fixedToken, fixedFound⟩ :=
      isRenamed.exists_fixedToken tokensEq fixedTokensEq found
    show ((LineMap.ofSource fixedTree.source).location (fixedTree.tokenSpan name).start).line =
      ((LineMap.ofSource tree.source).location (tree.tokenSpan name).start).line
    rw [SyntaxTree.tokenSpan, SyntaxTree.tokenSpan, found, fixedFound, sourceEq, fixedSourceEq]
    rw [← Array.getElem?_toList] at found fixedFound
    have sameLine := isRenamed.sameLine (tokensEq ▸ found) (fixedTokensEq ▸ fixedFound)
    rw [isCut.join_eq, ← String.toList_ofList (l := join renamed)] at sameLine
    exact sameLine.line_eq
  · intro name
    refine isRenamed.tokenText_eq tokensEq fixedTokensEq fun word named => ?_
    rw [Renaming.newName?_eq_some_iff allows.distinct] at named
    obtain ⟨token, found, -⟩ := SyntaxTree.exists_token_of_isName (allows.isName _ named)
    exact ⟨token, found⟩

/-- Fixing has given the name a digit where the style asks for a letter. -/
def LeadsWithDigit
    (analyzer : Analyzer)
    (document : Document)
    (name : TokenIndex)
    (style : NamingStyle) :
    Prop :=
  style.asksForLetter = true ∧
    ∃ entry ∈ analyzer.renamings document,
      entry.name = name ∧ NamingStyle.leadsWithDigit (String.ofList entry.word) = true

/--
A name that breaks its style after a pass was not asked for the same style
before, or the pass has left it with a digit where the style asks for a letter.
-/
theorem FixedFrom.settled
    {fixed : Document}
    {judgement fixedJudgement : Rule × NameRequirement}
    {fix : Fix}
    (fixedFrom : analyzer.FixedFrom document fixed)
    (parsed : SyntaxTree.parse source = .ok document.tree)
    (ofBuiltin : analyzer.OfBuiltin)
    (isJudged : judgement ∈ analyzer.judged document)
    (renames : Renames fixed fixedJudgement fix)
    (sameRule : judgement.1.id = fixedJudgement.1.id)
    (sameToken : judgement.2.token = fixedJudgement.2.token)
    (sameStyle : judgement.2.style = fixedJudgement.2.style) :
    analyzer.LeadsWithDigit document fixedJudgement.2.token fixedJudgement.2.style := by
  have isName := isName_of_judged parsed isJudged
  have textEq := fixedFrom.text_eq judgement.2.token
  have breaksStyle := renames.breaksStyle
  rw [← sameToken, ← sameStyle] at breaksStyle
  rw [← sameToken, ← sameStyle]
  rcases newName?_of_judged parsed ofBuiltin isJudged with ⟨_, renamed, named⟩ | ⟨notRenamed, named⟩
  · -- The first pass has given the name to the style.
    rw [named, Option.map_some, Option.getD_some, String.ofList_toList] at textEq
    rw [textEq] at breaksStyle
    have isWord := SyntaxTree.isWord_of_isName parsed isName renamed.notQuoted
    rcases NamingStyle.check_convert isWord renamed.changes with follows | ⟨asksForLetter, hasDigit⟩
    · rw [follows] at breaksStyle
      cases breaksStyle
    · rw [Renaming.newName?_eq_some_iff (allows_renamings parsed ofBuiltin).distinct] at named
      refine ⟨asksForLetter, _, named, rfl, ?_⟩
      rwa [String.ofList_toList]
  · -- The first pass would have renamed what the second one renames.
    obtain ⟨token, found, -⟩ := SyntaxTree.exists_token_of_isName isName
    rw [named, Option.map_none, Option.getD_none] at textEq
    have notQuoted := renames.notQuoted
    have changes := renames.changes
    have notSuppressed := renames.notSuppressed
    rw [← sameToken, textEq] at notQuoted
    rw [← sameToken, ← sameStyle, textEq] at changes
    rw [textEq] at breaksStyle
    rw [← sameRule, ← sameToken, fixedFrom.suppressions_eq, fixedFrom.line_eq _ token found]
      at notSuppressed
    exact (notRenamed _ ⟨⟨notQuoted, breaksStyle, changes, rfl⟩, notSuppressed⟩).elim

/--
No expression mentions a renamed name, by its old or by its new spelling, and no
new name is reserved or has a digit where its style asks for a letter.
-/
structure RenamesQuietly (analyzer : Analyzer) (document : Document) : Prop where
  notReserved :
    ∀ entry ∈ analyzer.renamings document, Keyword.ofText? (String.ofList entry.word) = none
  noDigit :
    ∀ judgement ∈ analyzer.judged document,
      ¬ analyzer.LeadsWithDigit document judgement.2.token judgement.2.style
  oldUnused :
    ∀ entry ∈ analyzer.renamings document,
      document.tree.tokenText entry.name ∉ document.tree.usedTexts
  newUnused :
    ∀ entry ∈ analyzer.renamings document,
      String.ofList entry.word ∉ document.tree.usedTexts

instance
    (analyzer : Analyzer)
    (document : Document)
    (name : TokenIndex)
    (style : NamingStyle) :
    Decidable (analyzer.LeadsWithDigit document name style) :=
  inferInstanceAs (Decidable (_ ∧ _))

instance (analyzer : Analyzer) (document : Document) :
    Decidable (analyzer.RenamesQuietly document) :=
  decidable_of_iff
    ((∀ entry ∈ analyzer.renamings document,
      Keyword.ofText? (String.ofList entry.word) = none ∧
        document.tree.tokenText entry.name ∉ document.tree.usedTexts ∧
          String.ofList entry.word ∉ document.tree.usedTexts) ∧
      ∀ judgement ∈ analyzer.judged document,
        ¬ analyzer.LeadsWithDigit document judgement.2.token judgement.2.style)
    ⟨fun ⟨quiet, noDigit⟩ =>
      {
        notReserved := fun entry member => (quiet entry member).1
        noDigit
        oldUnused := fun entry member => (quiet entry member).2.1
        newUnused := fun entry member => (quiet entry member).2.2
      },
    fun quiet =>
      ⟨fun entry member =>
        ⟨quiet.notReserved entry member, quiet.oldUnused entry member,
          quiet.newUnused entry member⟩,
        quiet.noDigit⟩⟩

/-- A text that expressions mention is the text of the same tokens after fixing. -/
theorem FixedFrom.tokenText_iff
    {fixed : Document}
    {text : String}
    (fixedFrom : analyzer.FixedFrom document fixed)
    (distinct : ((analyzer.renamings document).map Renaming.name).Nodup)
    (quiet : analyzer.RenamesQuietly document)
    (isUsed : text ∈ document.tree.usedTexts)
    (token : TokenIndex) :
    fixed.tree.tokenText token = text ↔ document.tree.tokenText token = text := by
  rw [fixedFrom.text_eq token]
  cases named : Renaming.newName? (analyzer.renamings document) token.val with
  | none => exact Iff.rfl
  | some word =>
      rw [Renaming.newName?_eq_some_iff distinct] at named
      constructor
      · rintro rfl
        exact (quiet.newUnused _ named isUsed).elim
      · rintro rfl
        exact (quiet.oldUnused _ named isUsed).elim

/-- Fixing a document whose renamed names are not mentioned changes no requirement. -/
theorem judged_eq_of_renamesQuietly
    (parsed : SyntaxTree.parse source = .ok tree)
    (ofBuiltin : analyzer.OfBuiltin)
    (parsedAgain :
      SyntaxTree.parse (analyzer.fixDocument (.ofTree path tree)).output = .ok fixedTree)
    (quiet : analyzer.RenamesQuietly (.ofTree path tree)) :
    analyzer.judged (.ofTree path fixedTree) = analyzer.judged (.ofTree path tree) := by
  have parsedDocument : SyntaxTree.parse source = .ok (Document.ofTree path tree).tree := parsed
  have fixedFrom := fixedFrom_fixDocument parsed ofBuiltin parsedAgain
  have allows := allows_renamings parsedDocument ofBuiltin
  obtain ⟨pieces, renamed, isCut, tokensEq, isRenamed, outcomeEq⟩ :=
    fixDocument_pieces parsedDocument ofBuiltin
  have sameKinds := allows.kinds_eq tokensEq isRenamed quiet.notReserved
  rw [outcomeEq] at parsedAgain
  obtain rfl : _ = fixedTree := Except.ok.inj ((allows.parse_renamed parsedDocument isCut tokensEq
    isRenamed quiet.notReserved).symm.trans parsedAgain)
  have respells : tree.Respells (String.ofList (join renamed)) (tokensFrom 0 renamed).toArray := by
    refine SyntaxTree.respells_of_text_iff (fun token => ?_)
      fun text isUsed token => fixedFrom.tokenText_iff allows.distinct quiet isUsed token
    have sameKind := congrArg (·[token.val]?) sameKinds
    simp only [List.getElem?_map] at sameKind
    show (((tokensFrom 0 renamed).toArray[token.val]?).map Token.kind).getD .eof = _
    rw [List.getElem?_toArray, sameKind, Array.getElem?_toList]
    rfl
  show analyzer.judged (.ofTree path (tree.respelled _ _)) = _
  simp only [judged, requirements, respells.requirements_eq]

/--
The fix of a problem renames a name that its rule did not ask for the same style
before fixing, or that fixing has left with a digit in the place of a letter.
-/
def NewlyAsked
    (analyzer : Analyzer)
    (document fixed : Document)
    (problem : Problem)
    (fix : Fix) :
    Prop :=
  ∃ name style,
    fix.start = (fixed.tree.tokenSpan name).start ∧
      fix.stop = (fixed.tree.tokenSpan name).stop ∧
        analyzer.Asks fixed problem.ruleId name style ∧
          (analyzer.Asks document problem.ruleId name style →
            analyzer.LeadsWithDigit document name style)

/-- A fix of a fixed document that counts is newly asked for. -/
theorem FixedFrom.newlyAsked
    {fixed : Document}
    {problem : Problem}
    {fix : Fix}
    (fixedFrom : analyzer.FixedFrom document fixed)
    (parsed : SyntaxTree.parse source = .ok document.tree)
    (ofBuiltin : analyzer.OfBuiltin)
    (isActive : problem ∈ (analyzer.lint fixed).activeProblems)
    (hasFix : problem.fix? = some fix) :
    analyzer.NewlyAsked document fixed problem fix := by
  obtain ⟨judgement, isJudged, ruleEq, renamed⟩ :=
    exists_judgement ofBuiltin.areBuiltin isActive hasFix
  obtain ⟨_, required⟩ := mem_judged.mp isJudged
  have renames := (rename?_eq_some_iff (mem_requirements required).1).mp renamed
  have startEq := congrArg Fix.start renames.fix_eq
  have stopEq := congrArg Fix.stop renames.fix_eq
  refine ⟨judgement.2.token, judgement.2.style, startEq, stopEq,
    ⟨judgement, isJudged, ruleEq.symm, rfl, rfl⟩, ?_⟩
  rintro ⟨former, isFormer, sameRule, sameToken, sameStyle⟩
  exact fixedFrom.settled parsed ofBuiltin isFormer renames (sameRule.trans ruleEq) sameToken
    sameStyle

theorem applied_eq_nil
    (noFix : ∀ problem ∈ (analyzer.lint document).activeProblems, problem.fix? = none) :
    (analyzer.fixDocument document).applied = [] := by
  have noFixes : (analyzer.lint document).activeProblems.filterMap Problem.fix? = [] :=
    List.filterMap_eq_nil_iff.mpr noFix
  rw [fixDocument, noFixes, Fix.apply, Fix.sortByStart, List.mergeSort_nil]
  rfl

/--
What a second pass fixes was not asked for before the first one. If no
expression mentions a renamed name, the second pass finds nothing to fix.
-/
theorem second_pass
    {workingDirectory : String}
    {plan : AnalyzerPlan}
    (parsed : SyntaxTree.parse source = .ok tree)
    (areBuiltin : ∀ rule ∈ plan.rules, rule ∈ Rule.builtin)
    (built : build workingDirectory plan = .ok analyzer)
    (parsedAgain :
      SyntaxTree.parse (analyzer.fixDocument (.ofTree path tree)).output = .ok fixedTree) :
    (∀ problem ∈ (analyzer.lint (.ofTree path fixedTree)).activeProblems,
      ∀ fix, problem.fix? = some fix →
        analyzer.NewlyAsked (.ofTree path tree) (.ofTree path fixedTree) problem fix) ∧
      (analyzer.RenamesQuietly (.ofTree path tree) →
        (∀ problem ∈ (analyzer.lint (.ofTree path fixedTree)).activeProblems,
          problem.fix? = none) ∧
          (analyzer.fixDocument (.ofTree path fixedTree)).applied = []) := by
  have parsedDocument : SyntaxTree.parse source = .ok (Document.ofTree path tree).tree := parsed
  have ofBuiltin := ofBuiltin_of_build built areBuiltin
  have fixedFrom := fixedFrom_fixDocument parsed ofBuiltin parsedAgain
  refine ⟨fun problem isActive fix hasFix =>
    fixedFrom.newlyAsked parsedDocument ofBuiltin isActive hasFix, fun quiet => ?_⟩
  have noFix :
      ∀ problem ∈ (analyzer.lint (.ofTree path fixedTree)).activeProblems,
        problem.fix? = none := by
    intro problem isActive
    cases hasFix : problem.fix? with
    | none => rfl
    | some fix =>
        -- The same names are asked for the same styles, so nothing is newly asked for.
        obtain ⟨name, style, -, -, asked, settled⟩ :=
          fixedFrom.newlyAsked parsedDocument ofBuiltin isActive hasFix
        rw [Asks, judged_eq_of_renamesQuietly parsed ofBuiltin parsedAgain quiet] at asked
        have leadsWithDigit := settled asked
        obtain ⟨judgement, isJudged, -, rfl, rfl⟩ := asked
        exact (quiet.noDigit judgement isJudged leadsWithDigit).elim
  exact ⟨noFix, applied_eq_nil noFix⟩

/-- Nobody mentions the renamed type, so a second pass leaves the source alone. -/
theorem second_pass_struct :
    ∃ tree analyzer fixedTree,
      SyntaxTree.parse "const my_t = struct { b: u8 };" = .ok tree ∧
        build "/" { rules := Rule.builtin } = .ok analyzer ∧
          (analyzer.fixDocument (.ofTree "a.zig" tree)).output =
              "const MyT = struct { b: u8 };" ∧
            SyntaxTree.parse "const MyT = struct { b: u8 };" = .ok fixedTree ∧
              analyzer.RenamesQuietly (.ofTree "a.zig" tree) ∧
                (analyzer.fixDocument (.ofTree "a.zig" fixedTree)).applied = [] := by
  have facts :
      ((SyntaxTree.parse "const my_t = struct { b: u8 };").toOption.bind fun tree =>
        (build "/" { rules := Rule.builtin }).toOption.bind fun analyzer =>
          (SyntaxTree.parse "const MyT = struct { b: u8 };").toOption.map fun _ =>
            ((analyzer.fixDocument (.ofTree "a.zig" tree)).output,
              decide (analyzer.RenamesQuietly (.ofTree "a.zig" tree)))) =
        some ("const MyT = struct { b: u8 };", true) := by
    decide +kernel
  obtain ⟨tree, hasTree, facts⟩ := Option.bind_eq_some_iff.mp facts
  obtain ⟨analyzer, hasAnalyzer, facts⟩ := Option.bind_eq_some_iff.mp facts
  obtain ⟨fixedTree, hasFixedTree, facts⟩ := Option.map_eq_some_iff.mp facts
  obtain ⟨outputEq, isQuiet⟩ := Prod.mk.inj facts
  have parsed := eq_ok_of_toOption hasTree
  have built := eq_ok_of_toOption hasAnalyzer
  have parsedAgain := eq_ok_of_toOption hasFixedTree
  have quiet := of_decide_eq_true isQuiet
  refine ⟨tree, analyzer, fixedTree, parsed, built, outputEq, parsedAgain, quiet, ?_⟩
  exact ((second_pass parsed (fun _ isBuiltin => isBuiltin) built
    (outputEq ▸ parsedAgain)).2 quiet).2

/--
The first pass takes the name of a type from its alias, so a second one finds the
alias of no known type and renames it.
-/
theorem fixes_after_alias_renamed :
    ∃ tree analyzer fixedTree,
      SyntaxTree.parse "const t = u8;\nconst A = t;" = .ok tree ∧
        build "/" { rules := Rule.builtin } = .ok analyzer ∧
          SyntaxTree.parse (analyzer.fixDocument (.ofTree "a.zig" tree)).output = .ok fixedTree ∧
            (∃ problem ∈ (analyzer.lint (.ofTree "a.zig" fixedTree)).activeProblems,
              problem.fix? = some { start := 20, stop := 21, text := "a" }) ∧
              (analyzer.fixDocument (.ofTree "a.zig" fixedTree)).applied =
                [{ start := 20, stop := 21, text := "a" }] := by
  have facts :
      ((SyntaxTree.parse "const t = u8;\nconst A = t;").toOption.bind fun tree =>
        (build "/" { rules := Rule.builtin }).toOption.bind fun analyzer =>
          (SyntaxTree.parse (analyzer.fixDocument (.ofTree "a.zig" tree)).output).toOption.map
            fun fixedTree =>
              (decide (∃ problem ∈ (analyzer.lint (.ofTree "a.zig" fixedTree)).activeProblems,
                problem.fix? = some { start := 20, stop := 21, text := "a" }),
                (analyzer.fixDocument (.ofTree "a.zig" fixedTree)).applied)) =
        some (true, [{ start := 20, stop := 21, text := "a" }]) := by
    decide +kernel
  obtain ⟨tree, hasTree, facts⟩ := Option.bind_eq_some_iff.mp facts
  obtain ⟨analyzer, hasAnalyzer, facts⟩ := Option.bind_eq_some_iff.mp facts
  obtain ⟨fixedTree, hasFixedTree, facts⟩ := Option.map_eq_some_iff.mp facts
  obtain ⟨hasFix, appliedEq⟩ := Prod.mk.inj facts
  exact ⟨tree, analyzer, fixedTree, eq_ok_of_toOption hasTree, eq_ok_of_toOption hasAnalyzer,
    eq_ok_of_toOption hasFixedTree, of_decide_eq_true hasFix, appliedEq⟩

end Analyzer

end ZigLint
