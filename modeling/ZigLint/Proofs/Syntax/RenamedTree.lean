import ZigLint.Proofs.Fix.Splice
import ZigLint.Proofs.Syntax.Names
import ZigLint.Proofs.Token.NameTokens
import ZigLint.Rule.Basic

namespace ZigLint

/-!
# Renaming the names of a tree

Names that the nodes of a tree declare can be replaced by other words in the
source. The new source can be cut into tokens again, and it is parsed to the
same nodes unless one of the words is reserved.
-/

open Piece (Renamed fixesFrom join renamingFix tokensFrom)

/-- A new name for a name token. -/
structure Renaming where
  name : TokenIndex
  word : List Char
  deriving Repr, DecidableEq

namespace Renaming

/-- The new names of tokens, by their index. -/
def newName? (renamings : List Renaming) (index : Nat) : Option (List Char) :=
  (renamings.find? fun entry => entry.name.val == index).map Renaming.word

/-- A token gets the new name that stands in the list. -/
theorem newName?_eq_some_iff
    {renamings : List Renaming}
    {index : Nat}
    {word : List Char}
    (distinct : (renamings.map Renaming.name).Nodup) :
    newName? renamings index = some word ↔ { name := ⟨index⟩, word } ∈ renamings := by
  constructor
  · intro named
    obtain ⟨entry, found, rfl⟩ := Option.map_eq_some_iff.mp named
    obtain rfl : entry.name.val = index := by simpa using List.find?_some found
    exact List.mem_of_find?_eq_some found
  · intro member
    cases found : renamings.find? fun entry => entry.name.val == index with
    | none =>
        have notFound := List.find?_eq_none.mp found _ member
        exact (notFound (beq_self_eq_true index)).elim
    | some entry =>
        obtain rfl : entry.name.val = index := by simpa using List.find?_some found
        have same := List.inj_on_of_nodup_map distinct (List.mem_of_find?_eq_some found) member rfl
        rw [newName?, found, Option.map_some, same]

/-- The fix that renames a name of a tree. -/
def fix (tree : SyntaxTree) (entry : Renaming) : Fix where
  start := (tree.tokenSpan entry.name).start
  stop := (tree.tokenSpan entry.name).stop
  text := String.ofList entry.word

end Renaming

theorem rel_of_pairwise
    {items : Array α}
    {related : α → α → Prop}
    {first second : Nat}
    {firstItem secondItem : α}
    (pairwise : items.toList.Pairwise related)
    (firstFound : items[first]? = some firstItem)
    (secondFound : items[second]? = some secondItem)
    (isBefore : first < second) :
    related firstItem secondItem := by
  rw [← Array.getElem?_toList] at firstFound secondFound
  obtain ⟨firstLt, rfl⟩ := List.getElem?_eq_some_iff.mp firstFound
  obtain ⟨secondLt, rfl⟩ := List.getElem?_eq_some_iff.mp secondFound
  exact List.pairwise_iff_getElem.mp pairwise first second firstLt secondLt isBefore

namespace SyntaxTree

variable {source : String} {tree : SyntaxTree}

/-- The tokens of a parsed tree are those of the pieces of its source. -/
theorem parse_pieces
    (parsed : parse source = .ok tree) :
    tree.source = source ∧
      ∃ pieces, Cut source.toList pieces ∧ tree.tokens.toList = tokensFrom 0 pieces := by
  obtain ⟨tokens, _, _, scanned, -, rfl⟩ := parse_eq_ok_iff.mp parsed
  exact ⟨rfl, Token.scan_eq_ok_iff.mp scanned⟩

theorem exists_token_of_isName
    {name : TokenIndex}
    (isName : IsName tree.kinds name) :
    ∃ token,
      tree.tokens[name.val]? = some token ∧
        token.kind = .identifier ∧
          tree.tokenText name = token.text ∧ tree.tokenSpan name = token.span := by
  have isIdentifier := isName.isIdentifier
  rw [kindAt_kinds] at isIdentifier
  cases found : tree.tokens[name.val]? with
  | none =>
      rw [found] at isIdentifier
      cases isIdentifier
  | some token =>
      rw [found] at isIdentifier
      exact ⟨token, rfl, isIdentifier, by rw [tokenText, found]; rfl, by rw [tokenSpan, found]⟩

/-- A name that is not quoted is a word. -/
theorem isWord_of_isName
    {name : TokenIndex}
    (parsed : parse source = .ok tree)
    (isName : IsName tree.kinds name)
    (notQuoted : Document.isQuotedName (tree.tokenText name) = false) :
    Lexeme.IsWord (tree.tokenText name).toList := by
  obtain ⟨token, found, isIdentifier, textEq, -⟩ := exists_token_of_isName isName
  obtain ⟨-, pieces, isCut, tokensEq⟩ := parse_pieces parsed
  have member : token ∈ tokensFrom 0 pieces := by
    rw [← tokensEq, Array.mem_toList_iff]
    exact Array.mem_of_getElem? found
  rw [textEq] at notQuoted ⊢
  exact Piece.isWord_of_identifier isCut member isIdentifier
    (by simpa [Document.isQuotedName] using notQuoted)

/-- A word among the tokens is the text of a token. -/
theorem exists_token_of_isWord
    {index : TokenIndex}
    (isWord : Lexeme.IsWord (tree.tokenText index).toList) :
    ∃ token,
      tree.tokens[index.val]? = some token ∧
        tree.tokenText index = token.text ∧ tree.tokenSpan index = token.span := by
  cases found : tree.tokens[index.val]? with
  | none =>
      obtain ⟨_, _, notEmpty, -⟩ := isWord
      rw [tokenText, found] at notEmpty
      cases notEmpty
  | some token => exact ⟨token, rfl, by rw [tokenText, found]; rfl, by rw [tokenSpan, found]⟩

/-- A word takes some bytes. -/
theorem start_lt_stop_of_isWord
    {index : TokenIndex}
    (isWord : Lexeme.IsWord (tree.tokenText index).toList) :
    (tree.tokenSpan index).start < (tree.tokenSpan index).stop := by
  obtain ⟨token, -, textEq, spanEq⟩ := exists_token_of_isWord isWord
  have positive := Piece.byteLength_pos_of_isWord isWord
  rw [textEq, ← Text.utf8ByteSize_ofList, String.ofList_toList] at positive
  rw [spanEq]
  exact Nat.lt_add_of_pos_right positive

/-- No two words of a source start at the same place. -/
theorem eq_of_start_eq
    {first second : TokenIndex}
    (parsed : parse source = .ok tree)
    (firstIsWord : Lexeme.IsWord (tree.tokenText first).toList)
    (secondIsWord : Lexeme.IsWord (tree.tokenText second).toList)
    (sameStart : (tree.tokenSpan first).start = (tree.tokenSpan second).start) :
    first = second := by
  obtain ⟨-, pieces, -, tokensEq⟩ := parse_pieces parsed
  have ordered := tokensEq ▸ Piece.tokensFrom_ordered 0 pieces
  have not_before :
      ∀ {left right : TokenIndex},
        Lexeme.IsWord (tree.tokenText left).toList → Lexeme.IsWord (tree.tokenText right).toList →
        (tree.tokenSpan left).start = (tree.tokenSpan right).start → ¬left.val < right.val := by
    intro left right leftIsWord rightIsWord sameStart isBefore
    obtain ⟨leftToken, leftFound, -, leftSpan⟩ := exists_token_of_isWord leftIsWord
    obtain ⟨rightToken, rightFound, -, rightSpan⟩ := exists_token_of_isWord rightIsWord
    have startLt := start_lt_stop_of_isWord leftIsWord
    have stopLe := rel_of_pairwise ordered leftFound rightFound isBefore
    rw [← leftSpan, ← rightSpan] at stopLe
    omega
  have notBefore := not_before firstIsWord secondIsWord sameStart
  have notAfter := not_before secondIsWord firstIsWord sameStart.symm
  exact congrArg TokenIndex.mk (by omega : first.val = second.val)

/-- The renamings give words to names that are not quoted, and to none of them twice. -/
structure Allows (tree : SyntaxTree) (renamings : List Renaming) : Prop where
  distinct : (renamings.map Renaming.name).Nodup
  isName : ∀ entry ∈ renamings, IsName tree.kinds entry.name
  notQuoted :
    ∀ entry ∈ renamings, Document.isQuotedName (tree.tokenText entry.name) = false
  isWord : ∀ entry ∈ renamings, Lexeme.IsWord entry.word

namespace Allows

variable {renamings : List Renaming} {pieces renamed : List Piece}

/-- The pieces of the source can get the new names. -/
theorem exists_renamed
    (allows : tree.Allows renamings)
    (parsed : parse source = .ok tree)
    (isCut : Cut source.toList pieces)
    (tokensEq : tree.tokens.toList = tokensFrom 0 pieces) :
    ∃ renamed, Renamed (Renaming.newName? renamings) 0 false pieces renamed := by
  refine Piece.exists_renamed 0 .semicolon isCut nofun fun position word named => ?_
  rw [Nat.zero_add, Renaming.newName?_eq_some_iff allows.distinct] at named
  have isName := allows.isName _ named
  obtain ⟨token, found, -, textEq, -⟩ := exists_token_of_isName isName
  have wasWord := isWord_of_isName parsed isName (allows.notQuoted _ named)
  rw [textEq] at wasWord
  rw [← tokensEq]
  refine ⟨allows.isWord _ named, ⟨token, by rwa [Array.getElem?_toList], wasWord⟩, ?_⟩
  cases position with
  | zero => exact ⟨.semicolon, rfl, rfl⟩
  | succ before =>
      have leads := isName.mayStart.resolve_left (Nat.succ_ne_zero before)
      rw [kindAt_kinds, Nat.add_sub_cancel] at leads
      cases foundBefore : tree.tokens[before]? with
      | none =>
          rw [foundBefore] at leads
          cases leads
      | some tokenBefore =>
          rw [foundBefore] at leads
          refine ⟨tokenBefore.kind, ?_, leads⟩
          rw [List.getElem?_cons_succ, List.getElem?_map, Array.getElem?_toList, foundBefore]
          rfl

/-- Different names are renamed by different fixes. -/
theorem fixes_nodup
    (allows : tree.Allows renamings)
    (parsed : parse source = .ok tree) :
    (renamings.map (Renaming.fix tree)).Nodup := by
  have wasWord :
      ∀ entry ∈ renamings, Lexeme.IsWord (tree.tokenText entry.name).toList := by
    intro entry member
    exact isWord_of_isName parsed (allows.isName entry member) (allows.notQuoted entry member)
  rw [List.Nodup, List.pairwise_map]
  refine (List.pairwise_map.mp allows.distinct).imp_of_mem ?_
  intro first second isFirst isSecond distinct sameFix
  exact distinct (eq_of_start_eq parsed (wasWord first isFirst) (wasWord second isSecond)
    (congrArg Fix.start sameFix))

/-- The fixes of the renamings are those that give the pieces their new names. -/
theorem fixes_perm
    (allows : tree.Allows renamings)
    (parsed : parse source = .ok tree)
    (tokensEq : tree.tokens.toList = tokensFrom 0 pieces)
    (isRenamed : Renamed (Renaming.newName? renamings) 0 false pieces renamed) :
    (renamings.map (Renaming.fix tree)).Perm
      (fixesFrom (Renaming.newName? renamings) 0 0 pieces) := by
  have fixesNodup : (fixesFrom (Renaming.newName? renamings) 0 0 pieces).Nodup := by
    refine isRenamed.fixes_ordered.imp_of_mem fun isEarlier _ stopLe sameFix => ?_
    have := (isRenamed.fix_bounds isEarlier).2
    rw [← sameFix] at stopLe
    omega
  rw [List.perm_ext_iff_of_nodup (allows.fixes_nodup parsed) fixesNodup]
  intro fix
  rw [isRenamed.mem_fixesFrom, List.mem_map, ← tokensEq]
  simp only [Nat.zero_add, Renaming.newName?_eq_some_iff allows.distinct]
  constructor
  · rintro ⟨entry, member, rfl⟩
    obtain ⟨token, found, -, -, spanEq⟩ := exists_token_of_isName (allows.isName entry member)
    refine ⟨entry.name.val, token, by rwa [Array.getElem?_toList], entry.word, member, ?_⟩
    rw [Renaming.fix, spanEq]
    rfl
  · rintro ⟨position, token, found, word, member, rfl⟩
    obtain ⟨_, otherFound, -, -, spanEq⟩ := exists_token_of_isName (allows.isName _ member)
    rw [Array.getElem?_toList] at found
    obtain rfl := Option.some.inj (found.symm.trans otherFound)
    refine ⟨_, member, ?_⟩
    rw [Renaming.fix, spanEq]
    rfl

/-- The fixes of the renamings, in any order, turn the source into the renamed pieces. -/
theorem apply_eq
    {fixes : List Fix}
    (allows : tree.Allows renamings)
    (parsed : parse source = .ok tree)
    (perm : fixes.Perm (renamings.map (Renaming.fix tree))) :
    ∃ pieces renamed,
      Cut source.toList pieces ∧
        tree.tokens.toList = tokensFrom 0 pieces ∧
          Renamed (Renaming.newName? renamings) 0 false pieces renamed ∧
            Fix.apply source fixes =
              {
                output := String.ofList (join renamed)
                applied := fixesFrom (Renaming.newName? renamings) 0 0 pieces
                skipped := []
              } := by
  obtain ⟨-, pieces, isCut, tokensEq⟩ := parse_pieces parsed
  obtain ⟨renamed, isRenamed⟩ := allows.exists_renamed parsed isCut tokensEq
  have fixesPerm := perm.trans (allows.fixes_perm parsed tokensEq isRenamed)
  exact ⟨pieces, renamed, isCut, tokensEq, isRenamed,
    isRenamed.apply_eq isCut.join_eq.symm fixesPerm⟩

/-- Names that are no reserved words keep the kinds of all tokens. -/
theorem kinds_eq
    (allows : tree.Allows renamings)
    (tokensEq : tree.tokens.toList = tokensFrom 0 pieces)
    (isRenamed : Renamed (Renaming.newName? renamings) 0 false pieces renamed)
    (notReserved : ∀ entry ∈ renamings, Keyword.ofText? (String.ofList entry.word) = none) :
    (tokensFrom 0 renamed).map Token.kind = tree.tokens.toList.map Token.kind := by
  refine List.ext_getElem? fun position => ?_
  have renamedEq := congrArg (Option.map Prod.fst) (isRenamed.getElem?_tokens 0 0 position)
  rw [← tokensEq, Option.map_map, Option.map_map] at renamedEq
  rw [List.getElem?_map, List.getElem?_map]
  refine renamedEq.trans ?_
  cases found : tree.tokens.toList[position]? with
  | none => rfl
  | some token =>
      rw [Option.map_some, Option.map_some, Function.comp_apply]
      cases named : Renaming.newName? renamings position with
      | none => rfl
      | some word =>
          rw [Renaming.newName?_eq_some_iff allows.distinct] at named
          have isFree : Keyword.ofText? (String.ofList word) = none := notReserved _ named
          obtain ⟨_, otherFound, isIdentifier, -⟩ :=
            exists_token_of_isName (allows.isName _ named)
          rw [← Array.getElem?_toList] at otherFound
          obtain rfl := Option.some.inj (found.symm.trans otherFound)
          simp only [Piece.renamedToken, Lexeme.wordKind, isFree, isIdentifier]

/-- The renamed source is cut into the tokens of the renamed pieces. -/
theorem scan_renamed
    {names : Nat → Option (List Char)}
    (isCut : Cut source.toList pieces)
    (isRenamed : Renamed names 0 false pieces renamed) :
    Token.scan (String.ofList (join renamed)) = .ok (tokensFrom 0 renamed) := by
  refine Token.scan_eq_ok_iff.mpr ⟨renamed, ?_, rfl⟩
  rw [String.toList_ofList]
  exact isRenamed.cut isCut

/-- With names that are no reserved words, the renamed source has the same nodes. -/
theorem parse_renamed
    (allows : tree.Allows renamings)
    (parsed : parse source = .ok tree)
    (isCut : Cut source.toList pieces)
    (tokensEq : tree.tokens.toList = tokensFrom 0 pieces)
    (isRenamed : Renamed (Renaming.newName? renamings) 0 false pieces renamed)
    (notReserved : ∀ entry ∈ renamings, Keyword.ofText? (String.ofList entry.word) = none) :
    parse (String.ofList (join renamed)) =
      .ok
        {
          tree with
          source := String.ofList (join renamed)
          tokens := (tokensFrom 0 renamed).toArray
        } :=
  parse_of_kinds_eq parsed (scan_renamed isCut isRenamed)
    (allows.kinds_eq tokensEq isRenamed notReserved)

end Allows

end SyntaxTree

end ZigLint
