import ZigLint.Proofs.Naming.Convert
import ZigLint.Proofs.Rule.Requirements
import ZigLint.Proofs.Syntax.RenamedTree

namespace ZigLint

/-!
# The texts of fixes

A fix of a naming rule puts one word in the place of a declared name. The word
may be reserved: conversion does not look at the reserved words. Exactly then
the fix takes the declaration apart.
-/

open Piece (Renamed join tokensFrom)

/-- The text of the fix is an identifier and nothing else. -/
def Fix.IsIdentifier (fix : Fix) : Prop :=
  Token.scan fix.text =
    .ok [
      { kind := .identifier, text := fix.text, offset := 0 },
      .endOfFile fix.text.utf8ByteSize
    ]

/-- Applied to the source of a tree, the fix keeps all nodes of the tree. -/
def Fix.KeepsNodes (tree : SyntaxTree) (fix : Fix) : Prop :=
  ∃ fixedTree,
    SyntaxTree.parse (Fix.apply tree.source [fix]).output = .ok fixedTree ∧
      fixedTree.nodes = tree.nodes

theorem Token.scan_of_isWord
    {text : String}
    (isWord : Lexeme.IsWord text.toList) :
    scan text =
      .ok [
        { kind := Lexeme.wordKind text, text, offset := 0 },
        .endOfFile text.utf8ByteSize
      ] := by
  obtain ⟨first, rest, charsEq, startsWord, inside⟩ := isWord
  have textEq : text = String.ofList (first :: rest) := by rw [← charsEq, String.ofList_toList]
  have starts :
      Lexeme.Starts first rest [] (some (Lexeme.wordKind (String.ofList (first :: rest)))) :=
    .word startsWord inside nofun
  have isCut := Cut.cons starts .nil
  rw [List.append_nil, ← charsEq] at isCut
  rw [scan_eq_ok_iff.mpr ⟨_, isCut, rfl⟩, textEq]
  simp only [Piece.tokensFrom, Text.utf8ByteSize_ofList, Nat.zero_add, String.toList_ofList]

theorem Lexeme.wordKind_eq_identifier_iff
    {text : String} :
    wordKind text = .identifier ↔ Keyword.ofText? text = none := by
  unfold wordKind
  cases Keyword.ofText? text with
  | none => simp
  | some keyword => simp

/-- Trees with the same nodes declare the same names. -/
theorem SyntaxTree.DeclaresName.of_nodes_eq
    {tree other : SyntaxTree}
    {name : TokenIndex}
    {owner : NodeIndex}
    (declares : tree.DeclaresName name owner)
    (sameNodes : other.nodes = tree.nodes) :
    other.DeclaresName name owner := by
  have sameNode : ∀ index, other.node? index = tree.node? index := by
    intro index
    rw [node?, node?, sameNodes]
  cases declares with
  | own found notPrototype named =>
      exact .own (by rwa [sameNode]) notPrototype named
  | byPrototype found isFunction isChild prototypeFound isPrototype named =>
      exact .byPrototype (by rwa [sameNode]) isFunction isChild (by rwa [sameNode]) isPrototype
        named

/-- The text of a fix that gives a word is an identifier exactly if the word is not reserved. -/
theorem Renaming.fix_isIdentifier
    {entry : Renaming}
    (tree : SyntaxTree)
    (isWord : Lexeme.IsWord entry.word) :
    (entry.fix tree).IsIdentifier ↔ Keyword.ofText? (entry.fix tree).text = none := by
  have isWordText : Lexeme.IsWord (entry.fix tree).text.toList := by
    rwa [Renaming.fix, String.toList_ofList]
  rw [Fix.IsIdentifier, Token.scan_of_isWord isWordText, ← Lexeme.wordKind_eq_identifier_iff]
  simp

/-- Renaming one declared name keeps the nodes exactly if the new name is not reserved. -/
theorem Renaming.keepsNodes_iff
    {source : String}
    {tree : SyntaxTree}
    {entry : Renaming}
    {owner : NodeIndex}
    (parsed : SyntaxTree.parse source = .ok tree)
    (allows : tree.Allows [entry])
    (declares : tree.DeclaresName entry.name owner) :
    (entry.fix tree).KeepsNodes tree ↔ Keyword.ofText? (String.ofList entry.word) = none := by
  obtain ⟨pieces, renamed, isCut, tokensEq, isRenamed, outcomeEq⟩ :=
    allows.apply_eq parsed (.refl [entry.fix tree])
  rw [Fix.KeepsNodes, (SyntaxTree.parse_pieces parsed).1, outcomeEq]
  constructor
  · rintro ⟨fixedTree, parsedAgain, sameNodes⟩
    -- The same node still declares the name, so an identifier stands there.
    have isName := (declares.of_nodes_eq sameNodes).isName parsedAgain
    obtain ⟨token, found, isIdentifier, -⟩ := SyntaxTree.exists_token_of_isName isName
    obtain ⟨tokens, _, _, scanned, -, rfl⟩ := SyntaxTree.parse_eq_ok_iff.mp parsedAgain
    rw [SyntaxTree.Allows.scan_renamed isCut isRenamed] at scanned
    cases scanned
    rw [List.getElem?_toArray] at found
    have kindEq := congrArg (Option.map Prod.fst)
      (isRenamed.getElem?_tokens 0 0 entry.name.val)
    obtain ⟨oldToken, oldFound, -⟩ :=
      SyntaxTree.exists_token_of_isName (allows.isName entry List.mem_cons_self)
    have named : newName? [entry] entry.name.val = some entry.word :=
      (newName?_eq_some_iff allows.distinct).mpr List.mem_cons_self
    rw [← Array.getElem?_toList, tokensEq] at oldFound
    rw [found, oldFound, named] at kindEq
    have kindEq : token.kind = Lexeme.wordKind (String.ofList entry.word) :=
      Option.some.inj kindEq
    exact Lexeme.wordKind_eq_identifier_iff.mp (kindEq.symm.trans isIdentifier)
  · intro isFree
    refine ⟨_, allows.parse_renamed parsed isCut tokensEq isRenamed fun other member => ?_, rfl⟩
    obtain rfl := List.mem_singleton.mp member
    exact isFree

/-- A fix of a built-in rule renames a declared name to a word. -/
theorem Rule.exists_renaming
    {source : String}
    {document : Document}
    {rule : Rule}
    {options : RuleOptions}
    {problem : Problem}
    {fix : Fix}
    (parsed : SyntaxTree.parse source = .ok document.tree)
    (isBuiltin : rule ∈ builtin)
    (isProblem : problem ∈ rule.problems options document)
    (hasFix : problem.fix? = some fix) :
    ∃ entry owner,
      fix = entry.fix document.tree ∧
        document.tree.Allows [entry] ∧ document.tree.DeclaresName entry.name owner := by
  obtain ⟨requirement, required, broken⟩ := exists_requirement isBuiltin isProblem hasFix
  have corrects := Document.fix_of_brokenRequirement?_iff.mp
    (Option.bind_eq_some_iff.mpr ⟨problem, broken, hasFix⟩)
  obtain ⟨owner, declares, -⟩ := judgedName required
  have isName := declares.isName parsed
  have isWord := NamingStyle.isWord_convert requirement.style
    (SyntaxTree.isWord_of_isName parsed isName corrects.notQuoted)
  let entry : Renaming :=
    {
      name := requirement.token
      word := (requirement.style.convert (document.tree.tokenText requirement.token)).toList
    }
  refine ⟨entry, owner, ?_, ⟨?_, ?_, ?_, ?_⟩, declares⟩
  · rw [corrects.fix_eq, Renaming.fix, String.ofList_toList]
  · exact List.nodup_singleton _
  · exact List.forall_mem_singleton.mpr isName
  · exact List.forall_mem_singleton.mpr corrects.notQuoted
  · exact List.forall_mem_singleton.mpr isWord

/--
The text of a fix of a built-in rule is an identifier, and applying the fix keeps
the nodes, exactly if the text is not a reserved word.
-/
theorem Rule.fix_isIdentifier_iff
    {source path : String}
    {tree : SyntaxTree}
    {rule : Rule}
    {options : RuleOptions}
    {problem : Problem}
    {fix : Fix}
    (parsed : SyntaxTree.parse source = .ok tree)
    (isBuiltin : rule ∈ builtin)
    (isProblem : problem ∈ rule.problems options (.ofTree path tree))
    (hasFix : problem.fix? = some fix) :
    (fix.IsIdentifier ↔ Keyword.ofText? fix.text = none) ∧
      (fix.KeepsNodes tree ↔ Keyword.ofText? fix.text = none) := by
  obtain ⟨entry, owner, rfl, allows, declares⟩ :=
    exists_renaming parsed isBuiltin isProblem hasFix
  exact ⟨Renaming.fix_isIdentifier _ (allows.isWord entry List.mem_cons_self),
    Renaming.keepsNodes_iff parsed allows declares⟩

/-- A name in two words becomes one in lower case. -/
theorem Rule.fix_isIdentifier_iff_two_words :
    ∃ tree problem fix,
      SyntaxTree.parse "var MaxSize = 1;" = .ok tree ∧
        problem ∈ DeclarationNaming.rule.problems { severity := .error, table := [] }
            (.ofTree "a.zig" tree) ∧
          problem.fix? = some fix ∧
            fix.text = "max_size" ∧ fix.IsIdentifier ∧ fix.KeepsNodes tree := by
  have fixEq :
      ((SyntaxTree.parse "var MaxSize = 1;").toOption.bind fun tree =>
        ((DeclarationNaming.rule.problems { severity := .error, table := [] }
          (.ofTree "a.zig" tree)).head?.bind Problem.fix?).map Fix.text) =
        some "max_size" := by
    decide +kernel
  obtain ⟨tree, hasTree, fixEq⟩ := Option.bind_eq_some_iff.mp fixEq
  obtain ⟨fix, found, textEq⟩ := Option.map_eq_some_iff.mp fixEq
  obtain ⟨problem, isFirst, hasFix⟩ := Option.bind_eq_some_iff.mp found
  have parsed := eq_ok_of_toOption hasTree
  have isProblem := List.mem_of_head? isFirst
  have isBuiltin : DeclarationNaming.rule ∈ builtin := List.mem_cons_self
  have notReserved : Keyword.ofText? fix.text = none := by
    rw [textEq]
    decide +kernel
  obtain ⟨isIdentifier_iff, keepsNodes_iff⟩ :=
    fix_isIdentifier_iff parsed isBuiltin isProblem hasFix
  exact ⟨tree, problem, fix, parsed, isProblem, hasFix, textEq, isIdentifier_iff.mpr notReserved,
    keepsNodes_iff.mpr notReserved⟩

/-- A name that is a reserved word but for its case becomes that reserved word. -/
theorem Rule.fix_text_reserved :
    ∃ tree problem fix,
      SyntaxTree.parse "const Const = 1;" = .ok tree ∧
        problem ∈ DeclarationNaming.rule.problems { severity := .error, table := [] }
            (.ofTree "a.zig" tree) ∧
          problem.fix? = some fix ∧ fix.text = "const" ∧ ¬ fix.IsIdentifier := by
  have fixEq :
      ((SyntaxTree.parse "const Const = 1;").toOption.bind fun tree =>
        ((DeclarationNaming.rule.problems { severity := .error, table := [] }
          (.ofTree "a.zig" tree)).head?.bind Problem.fix?).map Fix.text) =
        some "const" := by
    decide +kernel
  have isReserved :
      Token.scan "const" =
        .ok [{ kind := .keyword .kwConst, text := "const", offset := 0 }, .endOfFile 5] := by
    decide +kernel
  obtain ⟨tree, hasTree, fixEq⟩ := Option.bind_eq_some_iff.mp fixEq
  obtain ⟨fix, found, textEq⟩ := Option.map_eq_some_iff.mp fixEq
  obtain ⟨problem, isFirst, hasFix⟩ := Option.bind_eq_some_iff.mp found
  refine ⟨tree, problem, fix, eq_ok_of_toOption hasTree, List.mem_of_head? isFirst, hasFix, textEq,
    ?_⟩
  rw [Fix.IsIdentifier, textEq, isReserved]
  simp

end ZigLint
