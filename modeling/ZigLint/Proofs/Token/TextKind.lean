import ZigLint.Proofs.Token.Cut

namespace ZigLint

/-!
# Kinds of texts

The kind of a token depends on the text of the token and on nothing around it:
the first character tells the class of the lexeme, and within the class the
whole text decides. So two sources with the same token texts, however they are
laid out, have tokens of the same kinds.
-/

namespace Lexeme

variable {first : Char} {own tail : List Char} {kind : TokenKind}

/-- The operator with exactly the given spelling. -/
def spelledOperator? (chars : List Char) : Option TokenKind :=
  (TokenKind.operators.find? fun entry => entry.1.toList == chars).map Prod.snd

/-- The kind of a token with the text `first :: own`. -/
def kindOfText (first : Char) (own : List Char) : TokenKind :=
  if isWordStart first then
    wordKind (String.ofList (first :: own))
  else if first = '@' then
    if own.head? = some '"' then .identifier else .builtin
  else if first.isDigit then
    .number
  else if first = '"' then
    .string
  else if first = '\'' then
    .char
  else if first = '\\' then
    .multilineStringLine
  else
    (spelledOperator? (first :: own)).getD .eof

/-- Every operator has the kind of its spelling, so no two entries share one. -/
theorem kindOfText_of_operator
    {text : String}
    (member : (text, kind) ∈ TokenKind.operators)
    (textEq : text.toList = first :: own) :
    kind = kindOfText first own := by
  have each :
      ∀ entry ∈ TokenKind.operators,
        entry.1.toList.head?.map (fun first => kindOfText first entry.1.toList.tail) =
          some entry.2 := by
    decide +kernel
  have spelled := each _ member
  rw [textEq] at spelled
  exact (Option.some.inj spelled).symm

/-- A lexeme has the kind of its text, whatever follows it. -/
theorem Starts.kind_eq
    (starts : Starts first own tail (some kind)) :
    kind = kindOfText first own := by
  unfold kindOfText
  cases starts with
  | multilineString doubled _ _ =>
      obtain rfl : first = '\\' := by simp_all [isDoubled]
      rfl
  | word startsWord _ _ => rw [if_pos startsWord]
  | quotedName body isAt ownEq _ =>
      subst isAt ownEq
      rfl
  | builtin isAt isWord _ =>
      obtain ⟨next, rest, rfl, startsWord, -⟩ := isWord
      subst isAt
      have notQuote : next ≠ '"' := ne_of_isWordPart (isWordPart_of_isWordStart startsWord) rfl
      rw [if_neg (by decide), if_pos rfl, if_neg (by simpa using notQuote)]
  | number isDigit _ =>
      have notAt : first ≠ '@' := ne_of_isWordPart (isWordPart_of_isDigit isDigit) rfl
      rw [isWordStart_of_isDigit isDigit, if_neg (by decide), if_neg notAt, if_pos isDigit]
  | string isQuote _ | char isQuote _ =>
      subst isQuote
      rfl
  | operator text _ _ found textEq =>
      exact kindOfText_of_operator (operator?_eq_some found).1 textEq

/-- No lexeme has the kind of the end of file. -/
theorem Starts.kind_ne_eof
    (starts : Starts first own tail (some kind)) :
    kind ≠ .eof := by
  cases starts with
  | word =>
      unfold wordKind
      split <;> exact TokenKind.noConfusion
  | operator text _ _ found =>
      have none : ∀ entry ∈ TokenKind.operators, entry.2 ≠ .eof := by decide +kernel
      exact none _ (operator?_eq_some found).1
  | _ => exact TokenKind.noConfusion

end Lexeme

/-- The token at the end of a text is the end of file, and no other one is. -/
theorem Cut.exists_tokens_eq
    {chars : List Char}
    {pieces : List Piece}
    (isCut : Cut chars pieces)
    (offset : Nat) :
    ∃ before,
      Piece.tokensFrom offset pieces =
          before ++ [Token.endOfFile (offset + Text.byteLength chars)] ∧
        ∀ token ∈ before, token.kind ≠ .eof := by
  induction isCut generalizing offset with
  | nil => exact ⟨[], rfl, fun _ member => by cases member⟩
  | @cons first own tail kind? pieces starts isCut inductionHypothesis =>
      obtain ⟨before, laterEq, notEnd⟩ :=
        inductionHypothesis (offset + Text.byteLength (first :: own))
      rw [Nat.add_assoc, ← Text.byteLength_append, List.cons_append] at laterEq
      rw [Piece.tokensFrom]
      cases kind? with
      | none => exact ⟨before, laterEq, notEnd⟩
      | some kind =>
          refine ⟨{ kind, text := String.ofList (first :: own), offset } :: before, ?_, ?_⟩
          · exact congrArg (List.cons _) laterEq
          · intro token member
            rcases List.mem_cons.mp member with rfl | isLater
            · exact starts.kind_ne_eof
            · exact notEnd token isLater

namespace Token

/-- The kind of a token with the given text; only the end of a file has none. -/
def kindOfText (text : String) : TokenKind :=
  match text.toList with
  | [] => .eof
  | first :: own => Lexeme.kindOfText first own

/-- The tokens of a text have the kinds of their own texts. -/
theorem kinds_tokensFrom
    {chars : List Char}
    {pieces : List Piece}
    (isCut : Cut chars pieces)
    (offset : Nat) :
    (Piece.tokensFrom offset pieces).map kind =
      ((Piece.tokensFrom offset pieces).map text).map kindOfText := by
  induction isCut generalizing offset with
  | nil => rfl
  | @cons first own _ kind? _ starts _ inductionHypothesis =>
      rw [Piece.tokensFrom]
      cases kind? with
      | none => exact inductionHypothesis _
      | some kind =>
          have textKind : kindOfText (String.ofList (first :: own)) = kind := by
            rw [kindOfText, String.toList_ofList]
            exact starts.kind_eq.symm
          simp only [List.map_cons, inductionHypothesis, textKind]

end Token

end ZigLint
