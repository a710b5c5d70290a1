import ZigLint.Proofs.Analyzer.Judged
import ZigLint.Proofs.Naming.Convert
import ZigLint.Proofs.Suppression.RenamedTwins
import ZigLint.Proofs.Syntax.RenamedTree

namespace ZigLint

/-!
# Fixing a document

The fixes that count rename judged names of the document. Applied together they
give the text of the same pieces with the new names, and so a source with the
same tokens up to the renamed ones and with the same suppression comments.
-/

open Piece (Renamed fixesFrom join tokensFrom)

namespace Analyzer

/-- An analyzer whose rules are built-in ones, none of them there twice. -/
structure OfBuiltin (analyzer : Analyzer) : Prop where
  areBuiltin : ∀ rule ∈ analyzer.rules, rule ∈ Rule.builtin
  idsNodup : (analyzer.rules.map Rule.id).Nodup

/-- Building an analyzer from built-in rules refuses to have one of them twice. -/
theorem ofBuiltin_of_build
    {workingDirectory : String}
    {plan : AnalyzerPlan}
    {analyzer : Analyzer}
    (built : build workingDirectory plan = .ok analyzer)
    (areBuiltin : ∀ rule ∈ plan.rules, rule ∈ Rule.builtin) :
    analyzer.OfBuiltin := by
  obtain ⟨rulesEq, idsNodup⟩ := rules_of_build built
  exact ⟨rulesEq ▸ areBuiltin, rulesEq ▸ idsNodup⟩

variable {analyzer : Analyzer} {document : Document} {source : String}

/-- The new name of a judged name, if it is renamed. -/
def renaming? (analyzer : Analyzer) (document : Document) (judgement : Rule × NameRequirement) :
    Option Renaming :=
  (analyzer.rename? document judgement).map fun fix =>
    { name := judgement.2.token, word := fix.text.toList }

/-- The new names that fixing a document gives to judged names. -/
def renamings (analyzer : Analyzer) (document : Document) : List Renaming :=
  (analyzer.judged document).filterMap (analyzer.renaming? document)

/-- A renaming is that of a judged name, with the style that is asked for. -/
theorem exists_of_mem_renamings
    {entry : Renaming}
    (member : entry ∈ analyzer.renamings document) :
    ∃ judgement ∈ analyzer.judged document,
      entry.name = judgement.2.token ∧
        entry.word =
            (judgement.2.style.convert (document.tree.tokenText judgement.2.token)).toList ∧
          Renames document judgement (entry.fix document.tree) := by
  obtain ⟨judgement, isJudged, found⟩ := List.mem_filterMap.mp member
  obtain ⟨fix, renamed, rfl⟩ := Option.map_eq_some_iff.mp found
  obtain ⟨_, required⟩ := mem_judged.mp isJudged
  have renames := (rename?_eq_some_iff (mem_requirements required).1).mp renamed
  obtain rfl := renames.fix_eq
  refine ⟨judgement, isJudged, rfl, rfl, ?_⟩
  rw [Renaming.fix, String.ofList_toList]
  exact renames

theorem map_fix_renamings
    (analyzer : Analyzer)
    (document : Document) :
    (analyzer.renamings document).map (Renaming.fix document.tree) =
      (analyzer.judged document).filterMap (analyzer.rename? document) := by
  rw [renamings, List.map_filterMap]
  refine List.filterMap_congr fun judgement isJudged => ?_
  cases renamed : analyzer.rename? document judgement with
  | none => rw [renaming?, renamed]; rfl
  | some fix =>
      obtain ⟨_, required⟩ := mem_judged.mp isJudged
      have renames := (rename?_eq_some_iff (mem_requirements required).1).mp renamed
      rw [renaming?, renamed, Option.map_some, Option.map_some, Renaming.fix, String.ofList_toList,
        renames.fix_eq]

/-- A judged name is an identifier that does not follow a point. -/
theorem isName_of_judged
    {judgement : Rule × NameRequirement}
    (parsed : SyntaxTree.parse source = .ok document.tree)
    (isJudged : judgement ∈ analyzer.judged document) :
    IsName document.tree.kinds judgement.2.token := by
  obtain ⟨_, required⟩ := mem_judged.mp isJudged
  obtain ⟨owner, declares, -⟩ := Rule.judgedName (mem_requirements required).2
  exact declares.isName parsed

/-- The names of a document can be renamed as fixing it does. -/
theorem allows_renamings
    (parsed : SyntaxTree.parse source = .ok document.tree)
    (ofBuiltin : analyzer.OfBuiltin) :
    document.tree.Allows (analyzer.renamings document) := by
  constructor
  · rw [renamings, List.map_filterMap, List.Nodup, List.pairwise_filterMap]
    refine (List.pairwise_map.mp (judged_nodup parsed ofBuiltin.idsNodup)).imp ?_
    intro first second distinct name named otherName otherNamed
    obtain ⟨_, found, rfl⟩ := Option.map_eq_some_iff.mp named
    obtain ⟨_, -, rfl⟩ := Option.map_eq_some_iff.mp found
    obtain ⟨_, otherFound, rfl⟩ := Option.map_eq_some_iff.mp otherNamed
    obtain ⟨_, -, rfl⟩ := Option.map_eq_some_iff.mp otherFound
    exact distinct
  · intro entry member
    obtain ⟨judgement, isJudged, nameEq, -, -⟩ := exists_of_mem_renamings member
    rw [nameEq]
    exact isName_of_judged parsed isJudged
  · intro entry member
    obtain ⟨judgement, -, nameEq, -, renames⟩ := exists_of_mem_renamings member
    rw [nameEq]
    exact renames.notQuoted
  · intro entry member
    obtain ⟨judgement, isJudged, -, wordEq, renames⟩ := exists_of_mem_renamings member
    rw [wordEq]
    exact NamingStyle.isWord_convert _
      (SyntaxTree.isWord_of_isName parsed (isName_of_judged parsed isJudged) renames.notQuoted)

/-- The fixes that count are those of the renamings, in some order. -/
theorem activeFixes_perm_renamings
    (ofBuiltin : analyzer.OfBuiltin) :
    ((analyzer.lint document).activeProblems.filterMap Problem.fix?).Perm
      ((analyzer.renamings document).map (Renaming.fix document.tree)) := by
  rw [map_fix_renamings]
  exact activeFixes_perm ofBuiltin.areBuiltin

/--
Fixing a document applies all fixes that count, and the outcome is the text of
the pieces of the source with the new names in it.
-/
theorem fixDocument_pieces
    (parsed : SyntaxTree.parse source = .ok document.tree)
    (ofBuiltin : analyzer.OfBuiltin) :
    ∃ pieces renamed,
      Cut source.toList pieces ∧
        document.tree.tokens.toList = tokensFrom 0 pieces ∧
          Renamed (Renaming.newName? (analyzer.renamings document)) 0 false pieces renamed ∧
            analyzer.fixDocument document =
              {
                output := String.ofList (join renamed)
                applied := fixesFrom (Renaming.newName? (analyzer.renamings document)) 0 0 pieces
                skipped := []
              } := by
  obtain ⟨pieces, renamed, isCut, tokensEq, isRenamed, outcomeEq⟩ :=
    (allows_renamings parsed ofBuiltin).apply_eq parsed (activeFixes_perm_renamings ofBuiltin)
  refine ⟨pieces, renamed, isCut, tokensEq, isRenamed, ?_⟩
  rw [fixDocument, (SyntaxTree.parse_pieces parsed).1, outcomeEq]

end Analyzer

/--
The outcome applies all of the given fixes to a parsed source, and this renames
identifiers and does nothing else.
-/
structure FixOutcome.RenamesOnly
    (outcome : FixOutcome)
    (tree : SyntaxTree)
    (fixes : List Fix) :
    Prop where
  /-- Every fix is applied. -/
  applied_perm : outcome.applied.Perm fixes
  skipped_eq_nil : outcome.skipped = []
  /-- A fix covers an identifier token. -/
  covers_identifier :
    ∀ fix ∈ outcome.applied,
      ∃ token ∈ tree.tokens,
        token.kind = .identifier ∧ fix.start = token.span.start ∧ fix.stop = token.span.stop
  /-- The output is the source with the fixed spans replaced by their texts. -/
  replaces : Fix.Replaces 0 outcome.applied tree.source.toList outcome.output.toList
  /-- The output has the same nodes, unless some name becomes a reserved word. -/
  same_nodes :
    (∀ fix ∈ outcome.applied, Keyword.ofText? fix.text = none) →
      ∃ fixedTree, SyntaxTree.parse outcome.output = .ok fixedTree ∧ fixedTree.nodes = tree.nodes

/-- Fixing a document by built-in rules renames identifiers and does nothing else. -/
theorem Analyzer.fixDocument_renamesOnly
    {source path workingDirectory : String}
    {tree : SyntaxTree}
    {plan : AnalyzerPlan}
    {analyzer : Analyzer}
    (parsed : SyntaxTree.parse source = .ok tree)
    (areBuiltin : ∀ rule ∈ plan.rules, rule ∈ Rule.builtin)
    (built : build workingDirectory plan = .ok analyzer) :
    (analyzer.fixDocument (.ofTree path tree)).RenamesOnly tree
      ((analyzer.lint (.ofTree path tree)).activeProblems.filterMap Problem.fix?) := by
  have parsedDocument : SyntaxTree.parse source = .ok (Document.ofTree path tree).tree := parsed
  have ofBuiltin := ofBuiltin_of_build built areBuiltin
  have allows := allows_renamings parsedDocument ofBuiltin
  obtain ⟨pieces, renamed, isCut, tokensEq, isRenamed, outcomeEq⟩ :=
    fixDocument_pieces parsedDocument ofBuiltin
  have fixesPerm := allows.fixes_perm parsed tokensEq isRenamed
  rw [outcomeEq]
  constructor
  · exact ((activeFixes_perm_renamings ofBuiltin).trans fixesPerm).symm
  · rfl
  · intro fix isApplied
    obtain ⟨entry, member, rfl⟩ := List.mem_map.mp (fixesPerm.symm.subset isApplied)
    obtain ⟨token, found, isIdentifier, -, spanEq⟩ :=
      SyntaxTree.exists_token_of_isName (allows.isName entry member)
    have startEq := congrArg Span.start spanEq
    have stopEq := congrArg Span.stop spanEq
    exact ⟨token, Array.mem_of_getElem? found, isIdentifier, startEq, stopEq⟩
  · rw [String.toList_ofList, (SyntaxTree.parse_pieces parsed).1, ← isCut.join_eq]
    exact isRenamed.replaces_all
  · intro notReserved
    refine ⟨_, allows.parse_renamed parsed isCut tokensEq isRenamed fun entry member => ?_, rfl⟩
    exact notReserved _ (fixesPerm.subset (List.mem_map_of_mem member))

/-- The name of a type gets longer; the comment and the reference after it stay as they are. -/
theorem Analyzer.fixDocument_renamesOnly_struct :
    ∃ tree analyzer,
      SyntaxTree.parse "const my_t = struct { b: u8 }; // my_t\nfn f() my_t {}" = .ok tree ∧
        build "/" { rules := Rule.builtin } = .ok analyzer ∧
          (analyzer.fixDocument (.ofTree "a.zig" tree)).output =
              "const MyT = struct { b: u8 }; // my_t\nfn f() my_t {}" ∧
            (analyzer.fixDocument (.ofTree "a.zig" tree)).RenamesOnly tree
              ((analyzer.lint (.ofTree "a.zig" tree)).activeProblems.filterMap Problem.fix?) := by
  have outputEq :
      ((SyntaxTree.parse "const my_t = struct { b: u8 }; // my_t\nfn f() my_t {}").toOption.bind
        fun tree => (build "/" { rules := Rule.builtin }).toOption.map fun analyzer =>
          (analyzer.fixDocument (.ofTree "a.zig" tree)).output) =
        some "const MyT = struct { b: u8 }; // my_t\nfn f() my_t {}" := by
    decide +kernel
  obtain ⟨tree, hasTree, outputEq⟩ := Option.bind_eq_some_iff.mp outputEq
  obtain ⟨analyzer, hasAnalyzer, outputEq⟩ := Option.map_eq_some_iff.mp outputEq
  have parsed := eq_ok_of_toOption hasTree
  have built := eq_ok_of_toOption hasAnalyzer
  exact ⟨tree, analyzer, parsed, built, outputEq,
    fixDocument_renamesOnly parsed (fun _ isBuiltin => isBuiltin) built⟩

/--
Fixing a document keeps its suppression comments: the output has the same
directives, in the same order, about the same lines and rules.
-/
theorem Analyzer.fixDocument_keepsSuppressions
    {source path workingDirectory : String}
    {tree : SyntaxTree}
    {plan : AnalyzerPlan}
    {analyzer : Analyzer}
    (parsed : SyntaxTree.parse source = .ok tree)
    (areBuiltin : ∀ rule ∈ plan.rules, rule ∈ Rule.builtin)
    (built : build workingDirectory plan = .ok analyzer) :
    SuppressionTable.ofSource (analyzer.fixDocument (.ofTree path tree)).output =
      (Document.ofTree path tree).suppressions := by
  have parsedDocument : SyntaxTree.parse source = .ok (Document.ofTree path tree).tree := parsed
  obtain ⟨pieces, renamed, isCut, -, isRenamed, outcomeEq⟩ :=
    fixDocument_pieces parsedDocument (ofBuiltin_of_build built areBuiltin)
  rw [outcomeEq]
  show SuppressionTable.ofSource (String.ofList (join renamed)) =
    SuppressionTable.ofSource tree.source
  rw [(SyntaxTree.parse_pieces parsed).1]
  exact isRenamed.suppressions_eq isCut

/-- The line scanner takes the end of a multi-line string for a comment, before and after fixing. -/
theorem Analyzer.fixDocument_keepsSuppressions_misread :
    ∃ tree analyzer,
      SyntaxTree.parse "const B = a/\\\\// zlinter-disable-current-line no_undefined\n;" =
          .ok tree ∧
        build "/" { rules := Rule.builtin } = .ok analyzer ∧
          (analyzer.fixDocument (.ofTree "a.zig" tree)).output =
              "const b = a/\\\\// zlinter-disable-current-line no_undefined\n;" ∧
            (Document.ofTree "a.zig" tree).suppressions.comments = [⟨1, 1, ["no_undefined"]⟩] ∧
              SuppressionTable.ofSource (analyzer.fixDocument (.ofTree "a.zig" tree)).output =
                (Document.ofTree "a.zig" tree).suppressions := by
  have factsEq :
      ((SyntaxTree.parse
        "const B = a/\\\\// zlinter-disable-current-line no_undefined\n;").toOption.bind fun tree =>
          (build "/" { rules := Rule.builtin }).toOption.map fun analyzer =>
            ((analyzer.fixDocument (.ofTree "a.zig" tree)).output,
              (Document.ofTree "a.zig" tree).suppressions.comments)) =
        some ("const b = a/\\\\// zlinter-disable-current-line no_undefined\n;",
          [⟨1, 1, ["no_undefined"]⟩]) := by
    decide +kernel
  obtain ⟨tree, hasTree, factsEq⟩ := Option.bind_eq_some_iff.mp factsEq
  obtain ⟨analyzer, hasAnalyzer, factsEq⟩ := Option.map_eq_some_iff.mp factsEq
  obtain ⟨outputEq, commentsEq⟩ := Prod.mk.inj factsEq
  have parsed := eq_ok_of_toOption hasTree
  have built := eq_ok_of_toOption hasAnalyzer
  exact ⟨tree, analyzer, parsed, built, outputEq, commentsEq,
    fixDocument_keepsSuppressions parsed (fun _ isBuiltin => isBuiltin) built⟩

end ZigLint
