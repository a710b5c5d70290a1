import ZigLint.Proofs.Text.Lines
import ZigLint.Suppression

namespace ZigLint

/-!
# How a line scan passes over lexemes

Between two lexemes the line scanner is in code, or right behind a slash. From
there it passes over a lexeme and is again in such a state: plain characters lead
back to code, a slash is kept in mind, and a literal is left at its closing quote.
A literal that goes on after a line break is not left on its first line.
-/

namespace LineState

/-- A character that says nothing to a scan in code. -/
def isPlain (char : Char) : Bool :=
  char != '/' && char != '"' && char != '\'' && char != '\\' && char != '\n'

/--
Between two lexemes a scan is in code, or right behind a slash that no other slash
follows.
-/
def Between (state : LineState) (afterSlash : Bool) (chars : List Char) : Prop :=
  state = .code ∨ state = .slash ∧ afterSlash = true ∧ chars.head? ≠ some '/'

variable {state : LineState} {char : Char} {next? : Option Char}

theorem Between.inCode
    {afterSlash : Bool}
    {chars : List Char}
    (between : state.Between afterSlash chars) :
    state = .code ∨ state = .slash := by
  rcases between with isCode | ⟨isSlash, -⟩
  · exact .inl isCode
  · exact .inr isSlash

theorem Between.eq_code
    {afterSlash : Bool}
    {rest : List Char}
    (between : state.Between afterSlash ('/' :: rest)) :
    state = .code := by
  rcases between with isCode | ⟨-, -, noSlash⟩
  · exact isCode
  · exact (noSlash rfl).elim

/-- A scan goes on in the next state, unless it enters a comment there. -/
theorem commentText?_cons
    {next : LineState}
    {rest : List Char}
    (stepEq : state.step char rest.head? = next)
    (notComment : next ≠ .comment) :
    state.commentText? (char :: rest) = next.commentText? rest := by
  rw [commentText?, stepEq]
  cases next with
  | comment => exact (notComment rfl).elim
  | _ => rfl

theorem step_of_isPlain
    (inCode : state = .code ∨ state = .slash)
    (isPlain : isPlain char = true) :
    state.step char next? = .code := by
  simp only [LineState.isPlain, Bool.and_eq_true, bne_iff_ne] at isPlain
  obtain ⟨⟨⟨⟨notSlash, notQuote⟩, notTick⟩, notBackslash⟩, -⟩ := isPlain
  rcases inCode with rfl | rfl
  · simp [step, notSlash, notQuote, notTick, notBackslash]
  · simp [step, notSlash, notQuote, notTick]

/-- Plain characters lead to code. -/
theorem commentText?_plain
    {chars : List Char}
    (inCode : state = .code ∨ state = .slash)
    (notEmpty : chars ≠ [])
    (arePlain : chars.all isPlain = true)
    (rest : List Char) :
    state.commentText? (chars ++ rest) = LineState.code.commentText? rest := by
  induction chars generalizing state with
  | nil => exact (notEmpty rfl).elim
  | cons char more inductionHypothesis =>
      simp only [List.all_cons, Bool.and_eq_true] at arePlain
      rw [List.cons_append, commentText?_cons (step_of_isPlain inCode arePlain.1) nofun]
      by_cases isLast : more = []
      · rw [isLast]
        rfl
      · exact inductionHypothesis (.inl rfl) isLast arePlain.2

theorem commentText?_ignored
    (chars : List Char) :
    LineState.ignored.commentText? chars = none := by
  induction chars with
  | nil => rfl
  | cons char rest inductionHypothesis => exact inductionHypothesis

/-- The state inside a literal with the given quote. -/
def inside (quote : Char) : LineState :=
  if quote = '"' then .inString else .inChar

/-- The state after a backslash inside a literal with the given quote. -/
def escapedIn (quote : Char) : LineState :=
  if quote = '"' then .stringEscape else .charEscape

variable {quote : Char}

theorem step_quote
    (inCode : state = .code ∨ state = .slash)
    (isQuote : quote = '"' ∨ quote = '\'') :
    state.step quote next? = inside quote := by
  rcases inCode with rfl | rfl <;> rcases isQuote with rfl | rfl <;> rfl

theorem step_inside
    (isQuote : quote = '"' ∨ quote = '\'') :
    (inside quote).step char next? =
      if char = '\\' then escapedIn quote else if char = quote then .code else inside quote := by
  rcases isQuote with rfl | rfl <;> rfl

theorem step_escapedIn
    (isQuote : quote = '"' ∨ quote = '\'') :
    (escapedIn quote).step char next? = inside quote := by
  rcases isQuote with rfl | rfl <;> rfl

theorem inside_ne_comment : inside quote ≠ .comment := by
  unfold inside
  split <;> nofun

theorem escapedIn_ne_comment : escapedIn quote ≠ .comment := by
  unfold escapedIn
  split <;> nofun

/-- Inside a literal an escaped character is passed over. -/
theorem commentText?_escape
    (isQuote : quote = '"' ∨ quote = '\'')
    (escaped : Char)
    (rest : List Char) :
    (inside quote).commentText? ('\\' :: escaped :: rest) = (inside quote).commentText? rest := by
  rw [commentText?_cons ((step_inside isQuote).trans (if_pos rfl)) escapedIn_ne_comment,
    commentText?_cons (step_escapedIn isQuote) inside_ne_comment]

/-- Inside a literal a character that is neither a backslash nor the quote is passed over. -/
theorem commentText?_inside
    (isQuote : quote = '"' ∨ quote = '\'')
    (notBackslash : char ≠ '\\')
    (notQuote : char ≠ quote)
    (rest : List Char) :
    (inside quote).commentText? (char :: rest) = (inside quote).commentText? rest := by
  refine commentText?_cons ?_ inside_ne_comment
  rw [step_inside isQuote, if_neg notBackslash, if_neg notQuote]

/-- The closing quote leads back to code. -/
theorem commentText?_close
    (isQuote : quote = '"' ∨ quote = '\'')
    (rest : List Char) :
    (inside quote).commentText? (quote :: rest) = LineState.code.commentText? rest := by
  refine commentText?_cons ?_ nofun
  rcases isQuote with rfl | rfl <;> rfl

end LineState

namespace Lexeme

open Text (Stops)

/-- What follows the opening quote of a literal, up to and including the closing one. -/
inductive QuotedBody (quote : Char) : List Char → Prop where
  | close : QuotedBody quote [quote]
  | escape
      {escaped : Char}
      {rest : List Char} :
      QuotedBody quote rest →
      QuotedBody quote ('\\' :: escaped :: rest)
  | char
      {char : Char}
      {rest : List Char} :
      char ≠ '\\' →
      char ≠ '\n' →
      char ≠ quote →
      QuotedBody quote rest →
      QuotedBody quote (char :: rest)

/-- The characters that are counted up to the closing quote are the body of a literal. -/
theorem quotedBody_take
    {quote : Char}
    {chars : List Char}
    {run : Nat}
    (found : quotedRun? quote chars = some run) :
    QuotedBody quote (chars.take run) := by
  fun_induction quotedRun? quote chars generalizing run with
  | case1 | case2 | case4 => cases found
  | case3 escaped rest inductionHypothesis =>
      obtain ⟨inner, innerFound, rfl⟩ := Option.map_eq_some_iff.mp found
      rw [Nat.add_comm]
      exact .escape (inductionHypothesis innerFound)
  | case5 rest =>
      cases found
      exact .close
  | case6 char rest notLast notEscape notBreak notQuote inductionHypothesis =>
      obtain ⟨inner, innerFound, rfl⟩ := Option.map_eq_some_iff.mp found
      rw [Nat.add_comm]
      have notBackslash : char ≠ '\\' := by
        rintro rfl
        cases rest with
        | nil => exact notLast rfl rfl
        | cons escaped after => exact notEscape escaped after rfl rfl
      exact .char notBackslash notBreak notQuote (inductionHypothesis innerFound)

theorem QuotedBody.of_run
    {quote : Char}
    {own tail : List Char}
    (run : quotedRun? quote (own ++ tail) = some own.length) :
    QuotedBody quote own := by
  have body := quotedBody_take run
  rwa [List.take_left' rfl] at body

/-- A literal on one line is left at its closing quote. -/
theorem QuotedBody.commentText?_eq
    {quote : Char}
    {own : List Char}
    (body : QuotedBody quote own)
    (isQuote : quote = '"' ∨ quote = '\'')
    (rest : List Char) :
    (LineState.inside quote).commentText? (own ++ rest) = LineState.code.commentText? rest := by
  induction body with
  | close => exact LineState.commentText?_close isQuote rest
  | escape _ inductionHypothesis =>
      rw [List.cons_append, List.cons_append, LineState.commentText?_escape isQuote]
      exact inductionHypothesis
  | char notBackslash _ notQuote _ inductionHypothesis =>
      rw [List.cons_append, LineState.commentText?_inside isQuote notBackslash notQuote]
      exact inductionHypothesis

/-- A literal that goes on after a line break is not left on its first line. -/
theorem QuotedBody.commentText?_eq_none
    {quote : Char}
    {own : List Char}
    (body : QuotedBody quote own)
    (isQuote : quote = '"' ∨ quote = '\'')
    (hasBreak : '\n' ∈ own) :
    (LineState.inside quote).commentText? (own.takeWhile (· != '\n')) = none := by
  induction body with
  | close =>
      rcases isQuote with rfl | rfl
      · exact absurd hasBreak (by decide)
      · exact absurd hasBreak (by decide)
  | @escape escaped rest _ inductionHypothesis =>
      rw [List.takeWhile_cons_of_pos (by decide)]
      by_cases isBreak : escaped = '\n'
      · subst isBreak
        rw [List.takeWhile_cons_of_neg (by decide),
          LineState.commentText?_cons ((LineState.step_inside isQuote).trans (if_pos rfl))
            LineState.escapedIn_ne_comment]
        rfl
      · rw [List.takeWhile_cons_of_pos (by simpa using isBreak),
          LineState.commentText?_escape isQuote]
        refine inductionHypothesis ?_
        simpa [Ne.symm isBreak] using hasBreak
  | @char char rest notBackslash notBreak notQuote _ inductionHypothesis =>
      rw [List.takeWhile_cons_of_pos (by simpa using notBreak),
        LineState.commentText?_inside isQuote notBackslash notQuote]
      refine inductionHypothesis ?_
      simpa [Ne.symm notBreak] using hasBreak

theorem isPlain_of_isWordPart
    {char : Char}
    (isPart : isWordPart char = true) :
    LineState.isPlain char = true := by
  have notMark : ∀ mark, isWordPart mark = false → char ≠ mark := fun _ => ne_of_isWordPart isPart
  simp only [LineState.isPlain, Bool.and_eq_true, bne_iff_ne]
  exact ⟨⟨⟨⟨notMark _ (by decide), notMark _ (by decide)⟩, notMark _ (by decide)⟩,
    notMark _ (by decide)⟩, notMark _ (by decide)⟩

theorem isPlain_of_isSign
    {char : Char}
    (isSign : isSign char = true) :
    LineState.isPlain char = true := by
  simp only [Lexeme.isSign, Bool.or_eq_true, beq_iff_eq] at isSign
  rcases isSign with rfl | rfl <;> decide

/-- A number is made of plain characters. -/
theorem all_isPlain_take_numberRun
    (hex : Bool)
    (chars : List Char) :
    (chars.take (numberRun hex chars)).all LineState.isPlain = true := by
  fun_induction numberRun hex chars with
  | case1 | case3 | case6 => rfl
  | case2 char isPart => simpa using isPlain_of_isWordPart isPart
  | case4 char next rest isExponent inductionHypothesis =>
      rw [Bool.and_eq_true] at isExponent
      have charPlain := isPlain_of_isWordPart (isWordPart_of_isExponentMark isExponent.1)
      have nextPlain := isPlain_of_isSign isExponent.2
      rw [Nat.add_comm, List.take_succ_cons, List.take_succ_cons, List.all_cons, List.all_cons,
        charPlain, nextPlain, inductionHypothesis]
      rfl
  | case5 char next rest _ goesOn inductionHypothesis =>
      have charPlain : LineState.isPlain char = true := by
        simp only [Bool.or_eq_true, Bool.and_eq_true, beq_iff_eq] at goesOn
        rcases goesOn with isPart | ⟨rfl, -⟩
        · exact isPlain_of_isWordPart isPart
        · decide
      rw [Nat.add_comm, List.take_succ_cons, List.all_cons, charPlain, inductionHypothesis]
      rfl

theorem all_isPlain_of_word
    {chars : List Char}
    (inside : chars.all isWordPart = true) :
    chars.all LineState.isPlain = true :=
  List.all_eq_true.mpr fun char member =>
    isPlain_of_isWordPart (List.all_eq_true.mp inside char member)

/-- An operator is made of plain characters, or starts with a slash. -/
theorem isPlain_of_operator
    {entry : String × TokenKind}
    (member : entry ∈ TokenKind.operators) :
    entry.1.toList.all LineState.isPlain = true ∨
      entry = ("/", .slash) ∨ entry.1.toList = ['/', '='] := by
  have each :
      ∀ entry ∈ TokenKind.operators,
        entry.1.toList.all LineState.isPlain = true ∨
          entry = ("/", .slash) ∨ entry.1.toList = ['/', '='] := by
    decide
  exact each entry member

section Passing

variable
  {first : Char}
  {own tail rest : List Char}
  {more : List (List Char)}
  {state : LineState}
  {isSlash : Bool}

/-- Behind a lexeme and before `rest` a scan is in a state between lexemes. -/
def PassedBy (state : LineState) (lexeme rest : List Char) (isSlash : Bool) (tail : List Char) :
    Prop :=
  ∃ next : LineState,
    next.Between isSlash tail ∧ state.commentText? (lexeme ++ rest) = next.commentText? rest

theorem passedBy_plain
    (inCode : state = .code ∨ state = .slash)
    (firstPlain : LineState.isPlain first = true)
    (ownPlain : own.all LineState.isPlain = true) :
    PassedBy state (first :: own) rest isSlash tail := by
  have allPlain : (first :: own).all LineState.isPlain = true := by
    rw [List.all_cons, firstPlain, ownPlain]
    rfl
  exact ⟨.code, .inl rfl,
    LineState.commentText?_plain inCode (List.cons_ne_nil first own) allPlain rest⟩

theorem commentText?_literal
    {quote : Char}
    {body : List Char}
    (inCode : state = .code ∨ state = .slash)
    (isQuote : quote = '"' ∨ quote = '\'')
    (run : quotedRun? quote (body ++ tail) = some body.length)
    (rest : List Char) :
    state.commentText? (quote :: (body ++ rest)) = LineState.code.commentText? rest := by
  rw [LineState.commentText?_cons (LineState.step_quote inCode isQuote)
    LineState.inside_ne_comment]
  exact (QuotedBody.of_run run).commentText?_eq isQuote rest

/-- From code a scan does not leave a literal that goes on after a line break on its first line. -/
theorem commentText?_literal_eq_none
    {quote : Char}
    {body : List Char}
    (inCode : state = .code ∨ state = .slash)
    (isQuote : quote = '"' ∨ quote = '\'')
    (run : quotedRun? quote (body ++ tail) = some body.length)
    (hasBreak : '\n' ∈ quote :: body) :
    state.commentText? ((quote :: body).takeWhile (· != '\n')) = none := by
  have notBreak : quote ≠ '\n' := by
    rcases isQuote with rfl | rfl <;> decide
  rw [List.takeWhile_cons_of_pos (by simpa using notBreak),
    LineState.commentText?_cons (LineState.step_quote inCode isQuote) LineState.inside_ne_comment]
  refine (QuotedBody.of_run run).commentText?_eq_none isQuote ?_
  simpa [Ne.symm notBreak] using hasBreak

/-- Nothing is left of a line behind a lexeme that reaches to the end of the line. -/
theorem first_line_of_stops
    (stops : Stops (· != '\n') tail)
    (linesEq : Text.lines tail = rest :: more) :
    rest = [] := by
  cases tail with
  | nil => exact (List.cons_eq_cons.mp linesEq).1.symm
  | cons char after =>
      obtain rfl : char = '\n' := by simpa using stops char rfl
      rw [Text.lines, if_pos rfl] at linesEq
      exact (List.cons_eq_cons.mp linesEq).1.symm

/-- From code a scan ignores a line of a multi-line string up to its end. -/
theorem passedBy_multilineString
    (doubled : isDoubled '\\' first (own ++ tail) = true)
    (stops : Stops (· != '\n') tail)
    (linesEq : Text.lines tail = rest :: more) :
    PassedBy .code (first :: own) rest isSlash tail := by
  simp only [isDoubled, Bool.and_eq_true, beq_iff_eq] at doubled
  obtain ⟨rfl, doubled⟩ := doubled
  obtain rfl := first_line_of_stops stops linesEq
  have nextEq : own.head? = some '\\' := by
    cases own with
    | nil => exact absurd (stops '\\' doubled) (by decide)
    | cons next _ => exact doubled
  refine ⟨.code, .inl rfl, ?_⟩
  have ignores : LineState.code.step '\\' (own ++ []).head? = .ignored := by
    rw [List.append_nil, nextEq]
    rfl
  rw [List.cons_append, LineState.commentText?_cons ignores LineState.noConfusion,
    LineState.commentText?_ignored]
  rfl

/-- A scan passes over an operator, and keeps a slash in mind. -/
theorem passedBy_operator
    {text : String}
    {kind : TokenKind}
    {afterSlash : Bool}
    (between : state.Between afterSlash (first :: (own ++ tail)))
    (notComment : isDoubled '/' first (own ++ tail) = false)
    (found : operator? (first :: (own ++ tail)) = some (text, kind))
    (textEq : text.toList = first :: own) :
    PassedBy state (first :: own) rest (some kind == some .slash) tail := by
  rcases isPlain_of_operator (operator?_eq_some found).1 with arePlain | isSlash | isDivision
  · rw [textEq, List.all_cons, Bool.and_eq_true] at arePlain
    exact passedBy_plain between.inCode arePlain.1 arePlain.2
  · obtain ⟨rfl, rfl⟩ := Prod.mk.inj isSlash
    have charsEq : ['/'] = first :: own := textEq
    obtain ⟨rfl, rfl⟩ := List.cons_eq_cons.mp charsEq
    obtain rfl := between.eq_code
    refine ⟨.slash, .inr ⟨rfl, rfl, ?_⟩, LineState.commentText?_cons rfl LineState.noConfusion⟩
    simpa [isDoubled] using notComment
  · obtain ⟨rfl, rfl⟩ := List.cons_eq_cons.mp (textEq.symm.trans isDivision)
    obtain rfl := between.eq_code
    have toSlash : LineState.code.step '/' ('=' :: rest).head? = .slash := rfl
    have toCode : LineState.slash.step '=' rest.head? = .code := rfl
    refine ⟨.code, .inl rfl, ?_⟩
    exact (LineState.commentText?_cons toSlash LineState.noConfusion).trans
      (LineState.commentText?_cons toCode LineState.noConfusion)

/-- A scan passes over a lexeme that is no comment and lies on one line. -/
theorem Starts.passedBy
    {kind? : Option TokenKind}
    {afterSlash : Bool}
    (starts : Starts first own tail kind?)
    (notComment : isDoubled '/' first (own ++ tail) = false)
    (noBreak : '\n' ∉ first :: own)
    (between : state.Between afterSlash (first :: (own ++ tail)))
    (notMisread : kind? = some .multilineStringLine → afterSlash = false)
    (linesEq : Text.lines tail = rest :: more) :
    PassedBy state (first :: own) rest (kind? == some .slash) tail := by
  have inCode := between.inCode
  cases starts with
  | blank isBlank ownEq =>
      subst ownEq
      refine passedBy_plain inCode ?_ rfl
      have notBreak : first ≠ '\n' := fun isBreak => noBreak (isBreak ▸ List.mem_cons_self)
      simp only [Lexeme.isBlank, Bool.or_eq_true, beq_iff_eq] at isBlank
      rcases isBlank with ((rfl | rfl) | rfl) | rfl
      · decide
      · decide
      · decide
      · exact (notBreak rfl).elim
  | comment doubled _ _ =>
      rw [notComment] at doubled
      cases doubled
  | multilineString doubled _ stops =>
      obtain rfl : state = .code := by
        rcases between with isCode | ⟨-, isAfterSlash, -⟩
        · exact isCode
        · rw [notMisread rfl] at isAfterSlash
          cases isAfterSlash
      exact passedBy_multilineString doubled stops linesEq
  | word startsWord inside _ =>
      exact passedBy_plain inCode (isPlain_of_isWordPart (isWordPart_of_isWordStart startsWord))
        (all_isPlain_of_word inside)
  | quotedName body isAt ownEq run =>
      subst isAt ownEq
      refine ⟨.code, .inl rfl, ?_⟩
      rw [List.cons_append,
        LineState.commentText?_cons (LineState.step_of_isPlain inCode (by decide))
          LineState.noConfusion]
      exact commentText?_literal (.inl rfl) (.inl rfl) run rest
  | builtin isAt isWord _ =>
      subst isAt
      obtain ⟨next, after, rfl, startsWord, inside⟩ := isWord
      have allParts : (next :: after).all isWordPart = true := by
        rw [List.all_cons, isWordPart_of_isWordStart startsWord, inside]
        rfl
      exact passedBy_plain inCode (by decide) (all_isPlain_of_word allParts)
  | number isDigit run =>
      have ownPlain := all_isPlain_take_numberRun (isHexMark first (own ++ tail)) (own ++ tail)
      rw [run, List.take_left' rfl] at ownPlain
      exact passedBy_plain inCode (isPlain_of_isWordPart (isWordPart_of_isDigit isDigit)) ownPlain
  | string isQuote run =>
      subst isQuote
      exact ⟨.code, .inl rfl, commentText?_literal inCode (.inl rfl) run rest⟩
  | char isQuote run =>
      subst isQuote
      exact ⟨.code, .inl rfl, commentText?_literal inCode (.inr rfl) run rest⟩
  | operator _ _ notComment found textEq =>
      exact passedBy_operator between notComment found textEq

/-- Two slashes start a comment that reaches to the end of the line. -/
theorem Starts.comment_of_isDoubled
    {kind? : Option TokenKind}
    (starts : Starts first own tail kind?)
    (doubled : isDoubled '/' first (own ++ tail) = true) :
    kind? = none ∧
      first = '/' ∧
        ∃ text, own = '/' :: text ∧ '\n' ∉ text ∧ Stops (· != '\n') tail := by
  obtain ⟨isSlash, nextEq⟩ : first = '/' ∧ (own ++ tail).head? = some '/' := by
    simpa [isDoubled] using doubled
  subst isSlash
  cases starts with
  | comment _ inside stops =>
      refine ⟨rfl, rfl, ?_⟩
      cases own with
      | nil => exact absurd (stops '/' nextEq) (by decide)
      | cons next text =>
          obtain rfl : next = '/' := Option.some.inj nextEq
          refine ⟨text, rfl, fun member => ?_, stops⟩
          exact absurd (List.all_eq_true.mp inside _ (List.mem_cons_of_mem _ member)) (by decide)
  | operator _ _ notComment _ _ =>
      rw [doubled] at notComment
      cases notComment
  | blank isMark _ | word isMark _ _ | number isMark _ => exact absurd isMark (by decide)
  | multilineString isMark _ _ => simp [isDoubled] at isMark
  | quotedName _ isMark _ _ | builtin isMark _ _ | string isMark _ | char isMark _ =>
      exact absurd isMark (by decide)

/--
A lexeme that holds a line break is that line break, or a literal that the scan
does not leave on its first line.
-/
theorem Starts.commentText?_of_break
    {kind? : Option TokenKind}
    (starts : Starts first own tail kind?)
    (inCode : state = .code ∨ state = .slash)
    (hasBreak : '\n' ∈ first :: own) :
    first = '\n' ∧ own = [] ∧ kind? = none ∨
      (∃ kind, kind? = some kind ∧ kind ≠ .multilineStringLine) ∧
        state.commentText? ((first :: own).takeWhile (· != '\n')) = none := by
  cases starts with
  | blank _ ownEq =>
      subst ownEq
      exact .inl ⟨(List.mem_singleton.mp hasBreak).symm, rfl, rfl⟩
  | comment doubled inside _ | multilineString doubled inside _ =>
      have notFirst : first ≠ '\n' := by
        rintro rfl
        simp [isDoubled] at doubled
      rcases List.mem_cons.mp hasBreak with isFirst | inOwn
      · exact (notFirst isFirst.symm).elim
      · exact absurd (List.all_eq_true.mp inside _ inOwn) (by decide)
  | word startsWord inside _ =>
      exact absurd hasBreak (not_mem_of_isWord ⟨first, own, rfl, startsWord, inside⟩ (by decide))
  | quotedName body isAt ownEq run =>
      subst isAt ownEq
      refine .inr ⟨⟨_, rfl, TokenKind.noConfusion⟩, ?_⟩
      rw [List.takeWhile_cons_of_pos (by decide),
        LineState.commentText?_cons (LineState.step_of_isPlain inCode (by decide))
          LineState.noConfusion]
      exact commentText?_literal_eq_none (.inl rfl) (.inl rfl) run (by simpa using hasBreak)
  | builtin isAt isWord _ =>
      subst isAt
      have notInOwn := not_mem_of_isWord isWord (by decide : isWordPart '\n' = false)
      exact absurd hasBreak (by simpa using notInOwn)
  | number isDigit run =>
      have ownPlain := all_isPlain_take_numberRun (isHexMark first (own ++ tail)) (own ++ tail)
      rw [run, List.take_left' rfl] at ownPlain
      rcases List.mem_cons.mp hasBreak with rfl | inOwn
      · cases isDigit
      · exact absurd (List.all_eq_true.mp ownPlain _ inOwn) (by decide)
  | string isQuote run =>
      subst isQuote
      exact .inr ⟨⟨_, rfl, TokenKind.noConfusion⟩,
        commentText?_literal_eq_none inCode (.inl rfl) run hasBreak⟩
  | char isQuote run =>
      subst isQuote
      exact .inr ⟨⟨_, rfl, TokenKind.noConfusion⟩,
        commentText?_literal_eq_none inCode (.inr rfl) run hasBreak⟩
  | operator text kind _ found textEq =>
      have noBreaks : ∀ entry ∈ TokenKind.operators, '\n' ∉ entry.1.toList := by decide
      rw [← textEq] at hasBreak
      exact absurd hasBreak (noBreaks _ (operator?_eq_some found).1)

end Passing

end Lexeme

end ZigLint
