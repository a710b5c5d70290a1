import ZigLint.Proofs.Syntax.Placement
import ZigLint.Proofs.Token.Rename

namespace ZigLint

/-!
# Name tokens among pieces

A name that stands where a declaration puts it does not follow a point: the
token before it ends otherwise, and a comment before it ends its line. So names
that the parser found can be renamed.
-/

namespace Lexeme

open Text (Stops)

variable {first : Char} {own tail : List Char} {kind? : Option TokenKind}

theorem endsInPoint_cons
    (afterPoint : Bool)
    (first : Char)
    (own : List Char) :
    endsInPoint afterPoint (first :: own) = ((first :: own).getLast? == some '.') := by
  induction own generalizing first afterPoint with
  | nil => rfl
  | cons next rest inductionHypothesis =>
      rw [List.getLast?_cons_cons, ← inductionHypothesis (first == '.') next]
      rfl

/-- A lexeme that ends in a point leads no name, or ends its line. -/
theorem Starts.leadsName_of_endsInPoint
    {afterPoint : Bool}
    (starts : Starts first own tail kind?)
    (isPoint : endsInPoint afterPoint (first :: own) = true) :
    (∃ kind, kind? = some kind ∧ kind.leadsName = false) ∨ Stops (· != '\n') tail := by
  rw [endsInPoint_cons, beq_iff_eq] at isPoint
  have lastMem := List.mem_of_getLast? isPoint
  cases starts with
  | blank isBlank ownEq =>
      subst ownEq
      obtain rfl : '.' = first := by simpa using lastMem
      cases isBlank
  | comment _ _ stops | multilineString _ _ stops => exact .inr stops
  | word startsWord inside _ =>
      rcases List.mem_cons.mp lastMem with rfl | inOwn
      · cases startsWord
      · exact absurd (List.all_eq_true.mp inside _ inOwn) (by decide)
  | quotedName | builtin | number | string | char => exact .inl ⟨_, rfl, rfl⟩
  | operator text kind _ found textEq =>
      have points_lead_no_name :
          ∀ entry ∈ TokenKind.operators,
            entry.1.toList.getLast? = some '.' → entry.2.leadsName = false := by
        decide
      rw [← textEq] at isPoint
      exact .inl ⟨kind, rfl, points_lead_no_name _ (operator?_eq_some found).1 isPoint⟩

/-- An identifier is a word, or it is quoted and starts with an at sign. -/
theorem Starts.isWord_of_identifier
    (starts : Starts first own tail (some .identifier)) :
    IsWord (first :: own) ∨ first = '@' := by
  generalize kindEq : some TokenKind.identifier = kind? at starts
  cases starts with
  | word startsWord inside _ => exact .inl ⟨first, own, rfl, startsWord, inside⟩
  | quotedName _ isAt _ _ => exact .inr isAt
  | operator text kind _ found _ =>
      have no_identifier : ∀ entry ∈ TokenKind.operators, entry.2 ≠ .identifier := by
        decide
      cases kindEq
      exact (no_identifier _ (operator?_eq_some found).1 rfl).elim
  | blank | comment | multilineString | builtin | number | string | char => cases kindEq

/-- A token that starts like a word is that word. -/
theorem Starts.kind_of_isWordStart
    {kind : TokenKind}
    (starts : Starts first own tail (some kind))
    (startsWord : isWordStart first = true) :
    kind = wordKind (String.ofList (first :: own)) := by
  have isPart := isWordPart_of_isWordStart startsWord
  cases starts with
  | word _ _ _ => rfl
  | multilineString doubled _ _ =>
      have notBackslash : first ≠ '\\' := ne_of_isWordPart isPart (by decide)
      rw [isDoubled_of_ne notBackslash] at doubled
      cases doubled
  | quotedName _ isMark _ _ | builtin isMark _ _ | string isMark _ | char isMark _ =>
      subst isMark
      cases startsWord
  | number isDigit _ =>
      rw [isWordStart_of_isDigit isDigit] at startsWord
      cases startsWord
  | operator text _ _ found textEq =>
      obtain ⟨_, _, firstEq, isStart⟩ := isOperatorStart_of_mem (operator?_eq_some found).1
      obtain ⟨rfl, -⟩ := List.cons_eq_cons.mp (firstEq.symm.trans textEq)
      simp [isOperatorStart, isPart] at isStart

end Lexeme

namespace Piece

open Text (Stops)
open Lexeme (IsWord endsInPoint isWordStart wordKind)

variable {names : Nat → Option (List Char)} {chars : List Char} {pieces : List Piece}

/-- An identifier token that is not quoted is a word. -/
theorem isWord_of_identifier
    {offset : Nat}
    {token : Token}
    (isCut : Cut chars pieces)
    (member : token ∈ tokensFrom offset pieces)
    (isIdentifier : token.kind = .identifier)
    (notQuoted : token.text.toList.head? ≠ some '@') :
    IsWord token.text.toList := by
  induction isCut generalizing offset with
  | nil =>
      obtain rfl := List.mem_singleton.mp member
      cases isIdentifier
  | @cons first own _ kind? _ starts _ inductionHypothesis =>
      rw [tokensFrom] at member
      cases kind? with
      | none => exact inductionHypothesis member
      | some kind =>
          rcases List.mem_cons.mp member with rfl | isLater
          · obtain rfl : kind = .identifier := isIdentifier
            rw [String.toList_ofList] at notQuoted ⊢
            refine starts.isWord_of_identifier.resolve_right ?_
            rintro rfl
            exact notQuoted rfl
          · exact inductionHypothesis isLater

/-- A token whose text is a word has the kind of that word. -/
theorem kind_of_isWord
    {offset : Nat}
    {token : Token}
    (isCut : Cut chars pieces)
    (member : token ∈ tokensFrom offset pieces)
    (isWord : IsWord token.text.toList) :
    token.kind = wordKind token.text := by
  induction isCut generalizing offset with
  | nil =>
      obtain rfl := List.mem_singleton.mp member
      obtain ⟨_, _, notEmpty, -⟩ := isWord
      cases notEmpty
  | @cons first own _ kind? _ starts _ inductionHypothesis =>
      rw [tokensFrom] at member
      cases kind? with
      | none => exact inductionHypothesis member
      | some kind =>
          rcases List.mem_cons.mp member with rfl | isLater
          · rw [String.toList_ofList] at isWord
            obtain ⟨_, _, charsEq, startsWord, -⟩ := isWord
            obtain ⟨rfl, rfl⟩ := List.cons_eq_cons.mp charsEq
            exact starts.kind_of_isWordStart startsWord
          · exact inductionHypothesis isLater

/--
The tokens can get new names that are words, where they are words themselves and
each follows a token that leads a name.

`previous` is the kind of the token before the pieces.
-/
theorem exists_renamed
    {index : Nat}
    {afterPoint : Bool}
    (offset : Nat)
    (previous : TokenKind)
    (isCut : Cut chars pieces)
    (pointEnds : afterPoint = true → previous.leadsName = false ∨ Stops (· != '\n') chars)
    (areNames :
      ∀ position word, names (index + position) = some word →
        IsWord word ∧
          (∃ token, (tokensFrom offset pieces)[position]? = some token ∧ IsWord token.text.toList) ∧
            ∃ kind, (previous :: (tokensFrom offset pieces).map Token.kind)[position]? = some kind ∧
              kind.leadsName = true) :
    ∃ renamed, Renamed names index afterPoint pieces renamed := by
  induction isCut generalizing index offset afterPoint previous with
  | nil =>
      refine ⟨[], .nil ?_⟩
      cases named : names index with
      | none => rfl
      | some word =>
          obtain ⟨-, ⟨token, found, isWord⟩, -⟩ := areNames 0 word named
          obtain rfl : Token.endOfFile offset = token := Option.some.inj found
          obtain ⟨_, _, notEmpty, -⟩ := isWord
          cases notEmpty
  | @cons first own tail kind? pieces starts laterCut inductionHypothesis =>
      have laterEnds : endsInPoint afterPoint (first :: own) = true →
          (∃ kind, kind? = some kind ∧ kind.leadsName = false) ∨ Stops (· != '\n') tail :=
        starts.leadsName_of_endsInPoint
      cases kind? with
      | none =>
          have pointEndsLater : endsInPoint afterPoint (first :: own) = true →
              previous.leadsName = false ∨ Stops (· != '\n') tail := by
            intro isPoint
            rcases laterEnds isPoint with ⟨_, isToken, -⟩ | stops
            · cases isToken
            · exact .inr stops
          obtain ⟨renamed, isRenamed⟩ := inductionHypothesis _ _ pointEndsLater areNames
          exact ⟨_, .gap rfl isRenamed⟩
      | some kind =>
          have pointEndsLater : endsInPoint afterPoint (first :: own) = true →
              kind.leadsName = false ∨ Stops (· != '\n') tail := by
            intro isPoint
            rcases laterEnds isPoint with ⟨_, isToken, leadsNone⟩ | stops
            · cases isToken
              exact .inl leadsNone
            · exact .inr stops
          have areNamesLater :=
            fun position word (named : names (index + 1 + position) = some word) =>
              areNames (position + 1) word (by rwa [Nat.add_right_comm] at named)
          obtain ⟨renamed, isRenamed⟩ := inductionHypothesis _ _ pointEndsLater areNamesLater
          cases named : names index with
          | none => exact ⟨_, .kept rfl named isRenamed⟩
          | some word =>
              obtain ⟨isWord, ⟨token, tokenEq, wasWord⟩, ⟨_, previousEq, leads⟩⟩ :=
                areNames 0 word named
              obtain rfl : { kind, text := String.ofList (first :: own), offset } = token :=
                Option.some.inj tokenEq
              obtain rfl : previous = _ := Option.some.inj previousEq
              rw [String.toList_ofList] at wasWord
              have startsWord : isWordStart first = true := by
                obtain ⟨_, _, firstEq, startsWord, -⟩ := wasWord
                rwa [← (List.cons_eq_cons.mp firstEq).1] at startsWord
              -- a point before the word would have to lead it or to end its line
              obtain rfl : afterPoint = false := by
                cases afterPoint with
                | false => rfl
                | true =>
                    rcases pointEnds rfl with leadsNone | stops
                    · rw [leads] at leadsNone
                      cases leadsNone
                    · obtain rfl : first = '\n' := by simpa using stops first rfl
                      cases startsWord
              exact ⟨_, .word rfl named isWord wasWord isRenamed⟩

end Piece

end ZigLint
