import ZigLint.Proofs.Parser.BracketSteps

namespace ZigLint.Parser

/-!
# Brackets that a parser keeps

`Keeps` says of a production that it leaves the open brackets as it found them,
and `Closes` that it closes the innermost one. Laws join them as productions are
joined: what a token says about the next one is used up where it is read, and
what opens a bracket is followed by what closes it.
-/

open Brackets

variable {kinds : Array TokenKind} {position : Nat} {opened : List Opened}

section Laws

/-- The tokens from a position on have the given kinds. -/
def Ahead (kinds : Array TokenKind) (position : Nat) : List TokenKind → Prop
  | [] => True
  | kind :: further => kindAt kinds position = kind ∧ Ahead kinds (position + 1) further

/--
In front of tokens of the kinds `ahead` the parser leaves the open brackets as it
found them.
-/
def KeepsFrom (kinds : Array TokenKind) (ahead : List TokenKind) (parser : Parser α) : Prop :=
  ∀ ⦃position opened⦄,
    Ahead kinds position ahead →
    Stands kinds position opened →
    Ensures kinds parser position fun _ stop => Stands kinds stop opened

/-- The parser leaves the open brackets as it found them. -/
abbrev Keeps (kinds : Array TokenKind) (parser : Parser α) : Prop :=
  KeepsFrom kinds [] parser

/-- The parser closes the innermost bracket, which it did not open. -/
def Closes (kinds : Array TokenKind) (bracket : Bracket) (parser : Parser α) : Prop :=
  ∀ ⦃position opened⦄,
    Stands kinds position (.other bracket :: opened) →
    Ensures kinds parser position fun _ stop => Stands kinds stop opened

/-- The parser looks at tokens without reading them. -/
def Looks (kinds : Array TokenKind) (parser : Parser α) : Prop :=
  ∀ position, Ensures kinds parser position fun _ stop => stop = position

variable {ahead : List TokenKind} {kind : TokenKind} {bracket : Bracket}

theorem ne_eof_of_isOrdinary (ordinary : isOrdinary kind = true) : kind ≠ .eof := by
  rintro rfl
  cases ordinary

theorem Keeps.from {parser : Parser α} (keeps : Keeps kinds parser) :
    KeepsFrom kinds ahead parser :=
  fun _ _ _ stands => keeps trivial stands

namespace KeepsFrom

theorem pure {value : α} : KeepsFrom kinds ahead (pure value) :=
  fun _ _ _ stands => ensures_pure.mpr stands

theorem mismatch {expectation : Expectation} :
    KeepsFrom kinds ahead (mismatch expectation : Parser α) :=
  fun _ _ _ _ => ensures_mismatch.mpr trivial

/-- A parser whose parts keep the brackets keeps them. -/
theorem bind
    {parser : Parser α}
    {next : α → Parser β}
    (first : KeepsFrom kinds ahead parser)
    (second : ∀ value, Keeps kinds (next value)) :
    KeepsFrom kinds ahead (parser >>= next) := by
  intro position opened isAhead stands
  refine ensures_bind.mpr ((first isAhead stands).mono fun value middle stands => ?_)
  exact second value trivial stands

/-- A look ahead does not change what is ahead. -/
theorem look
    {parser : Parser α}
    {next : α → Parser β}
    (looks : Looks kinds parser)
    (keeps : ∀ value, KeepsFrom kinds ahead (next value)) :
    KeepsFrom kinds ahead (parser >>= next) := by
  intro position opened isAhead stands
  refine ensures_bind.mpr ((looks position).mono fun value middle same => ?_)
  subst same
  exact keeps value isAhead stands

/-- An ordinary token that is ahead is read. -/
theorem advance
    {next : TokenIndex → Parser α}
    (ordinary : isOrdinary kind = true)
    (keeps : ∀ index, KeepsFrom kinds ahead (next index)) :
    KeepsFrom kinds (kind :: ahead) (Parser.advance >>= next) := by
  rintro position opened ⟨atKind, isAhead⟩ stands
  subst atKind
  refine ensures_bind.mpr (ensures_advance.mpr ⟨fun isEof => ?_, fun _ lt => ?_⟩)
  · exact (ne_eof_of_isOrdinary ordinary isEof).elim
  · exact keeps _ isAhead (stands.ordinary lt ordinary)

/-- An ordinary token that is ahead is accepted. -/
theorem accept
    {next : Bool → Parser α}
    (ordinary : isOrdinary kind = true)
    (keeps : KeepsFrom kinds ahead (next true)) :
    KeepsFrom kinds (kind :: ahead) (Parser.accept kind >>= next) := by
  rintro position opened ⟨atKind, isAhead⟩ stands
  refine ensures_bind.mpr ((ensures_accept (ne_eof_of_isOrdinary ordinary)).mpr
    ⟨fun _ lt => ?_, fun otherKind => ?_⟩)
  · exact keeps isAhead (stands.ordinary lt (atKind ▸ ordinary))
  · exact (otherKind atKind).elim

/-- A token of another kind stays ahead. -/
theorem accept_other
    {other : TokenKind}
    {next : Bool → Parser α}
    (notEof : other ≠ .eof)
    (differs : kind ≠ other)
    (keeps : KeepsFrom kinds (kind :: ahead) (next false)) :
    KeepsFrom kinds (kind :: ahead) (Parser.accept other >>= next) := by
  rintro position opened ⟨atKind, isAhead⟩ stands
  refine ensures_bind.mpr ((ensures_accept notEof).mpr ⟨fun atOther _ => ?_, fun _ => ?_⟩)
  · exact (differs (atKind.symm.trans atOther)).elim
  · exact keeps ⟨atKind, isAhead⟩ stands

/-- A bracket that is ahead is opened, and what follows closes it. -/
theorem advance_opens
    {next : TokenIndex → Parser α}
    (opening : kind.opens? = some bracket)
    (closes : ∀ index, Closes kinds bracket (next index)) :
    KeepsFrom kinds (kind :: ahead) (Parser.advance >>= next) := by
  rintro position opened ⟨atKind, -⟩ stands
  subst atKind
  refine ensures_bind.mpr (ensures_advance.mpr ⟨fun isEof => ?_, fun _ lt => ?_⟩)
  · rw [isEof] at opening
    cases opening
  · exact closes _ (stands.opens lt opening)

end KeepsFrom

theorem here_looks : Looks kinds here := fun _ => ensures_here.mpr rfl

theorem isAt_looks : Looks kinds (isAt kind) := fun _ => ensures_isAt.mpr rfl

theorem current_looks : Looks kinds current := fun _ => ensures_current.mpr rfl

theorem peek_looks {distance : Nat} : Looks kinds (peek distance) := fun _ => ensures_peek.mpr rfl

theorem previous_looks : Looks kinds previous := fun _ => ensures_previous.mpr rfl

theorem finish_keeps
    {form : NodeForm}
    {main first : TokenIndex}
    {children : List (Role × Ast)} :
    Keeps kinds (finish form main first children) :=
  fun _ _ _ stands => ensures_finish.mpr stands

/-- What a parser does depends on the token that is ahead. -/
theorem keeps_current
    {next : TokenKind → Parser α}
    (keeps : ∀ kind, KeepsFrom kinds [kind] (next kind)) :
    Keeps kinds (current >>= next) := by
  intro position opened _ stands
  refine ensures_bind.mpr (ensures_current.mpr ?_)
  exact keeps _ ⟨rfl, trivial⟩ stands

/-- What a parser does depends on the two tokens that are ahead. -/
theorem keeps_current_peek
    {next : TokenKind → TokenKind → Parser α}
    (keeps : ∀ first second, KeepsFrom kinds [first, second] (next first second)) :
    Keeps kinds (current >>= fun first => peek 1 >>= fun second => next first second) := by
  intro position opened _ stands
  simp only [ensures_bind, ensures_current, ensures_peek]
  exact keeps _ _ ⟨rfl, rfl, trivial⟩ stands

/-- What a parser does depends on the three tokens that are ahead. -/
theorem keeps_current_peek_peek
    {next : TokenKind → TokenKind → TokenKind → Parser α}
    (keeps :
      ∀ first second third,
        KeepsFrom kinds [first, second, third] (next first second third)) :
    Keeps kinds
      (current >>= fun first => peek 1 >>= fun second => peek 2 >>= fun third =>
        next first second third) := by
  intro position opened _ stands
  simp only [ensures_bind, ensures_current, ensures_peek]
  exact keeps _ _ _ ⟨rfl, rfl, rfl, trivial⟩ stands

/-- What a parser does depends on whether a token of some kind is ahead. -/
theorem keeps_isAt
    {next : Bool → Parser α}
    (keepsThere : KeepsFrom kinds [kind] (next true))
    (keepsElsewhere : Keeps kinds (next false)) :
    Keeps kinds (isAt kind >>= next) := by
  intro position opened _ stands
  refine ensures_bind.mpr (ensures_isAt.mpr ?_)
  by_cases atKind : kindAt kinds position = kind
  · rw [beq_iff_eq.mpr atKind]
    exact keepsThere ⟨atKind, trivial⟩ stands
  · rw [beq_eq_false_iff_ne.mpr atKind]
    exact keepsElsewhere trivial stands

theorem accept?_keeps (ordinary : isOrdinary kind = true) : Keeps kinds (accept? kind) := by
  intro position opened _ stands
  refine (ensures_accept? (ne_eof_of_isOrdinary ordinary)).mpr
    ⟨fun atKind lt => ?_, fun _ => stands⟩
  exact stands.ordinary lt (atKind ▸ ordinary)

theorem accept_keeps (ordinary : isOrdinary kind = true) : Keeps kinds (accept kind) :=
  .bind (accept?_keeps ordinary) fun _ => .pure

theorem expect_keeps (ordinary : isOrdinary kind = true) : Keeps kinds (expect kind) := by
  refine .bind (accept?_keeps ordinary) fun found => ?_
  cases found with
  | some index => exact .pure
  | none => exact .mismatch

theorem after?_keeps
    {parser : Parser α}
    (ordinary : isOrdinary kind = true)
    (keeps : Keeps kinds parser) :
    Keeps kinds (after? kind parser) := by
  refine .bind (accept_keeps ordinary) fun found => ?_
  cases found with
  | true => exact .bind keeps fun _ => .pure
  | false => exact .pure

theorem map_keeps
    {parser : Parser α}
    {change : α → β}
    (keeps : Keeps kinds parser) :
    Keeps kinds (change <$> parser) :=
  .bind keeps fun _ => .pure

theorem iterate_keeps
    {round : α → Parser (ForInStep α)}
    {value : α}
    (keeps : ∀ value, Keeps kinds (round value)) :
    Keeps kinds (iterate round value) := by
  intro position opened _ stands
  refine ensures_iterate (fun _ place => Stands kinds place opened) ?_ stands
  intro value place stands
  exact keeps value trivial stands

theorem repeatWhile_keeps {round : Parser Bool} (keeps : Keeps kinds round) :
    Keeps kinds (repeatWhile round) := by
  refine iterate_keeps fun _ => .bind keeps fun goesOn => ?_
  cases goesOn <;> exact .pure

theorem collect_keeps
    {round : Parser (ForInStep (List α))}
    (keeps : Keeps kinds round) :
    Keeps kinds (collect round) := by
  refine .bind (iterate_keeps fun lists => .bind keeps fun step => ?_) fun _ => .pure
  cases step <;> exact .pure

/-- A bracket is opened, and what follows closes it. -/
theorem expect_opens
    {next : TokenIndex → Parser α}
    (opening : kind.opens? = some bracket)
    (closes : ∀ index, Closes kinds bracket (next index)) :
    Keeps kinds (expect kind >>= next) := by
  have notEof : kind ≠ .eof := by
    rintro rfl
    cases opening
  intro position opened _ stands
  refine ensures_bind.mpr ((ensures_expect notEof).mpr fun atKind lt => ?_)
  exact closes _ (stands.opens lt (atKind ▸ opening))

/-- The innermost bracket is closed, whatever it says about the next token. -/
theorem expect_ends
    {innermost : Opened}
    (closing : kind.closes? = some innermost.bracket)
    (stands : Stands kinds position (innermost :: opened)) :
    Ensures kinds (expect kind) position fun _ stop =>
      Reaches kinds stop opened (.code innermost.cue) := by
  have notEof : kind ≠ .eof := by
    rintro rfl
    cases closing
  refine (ensures_expect notEof).mpr fun atKind lt => ?_
  exact stands.closes lt (atKind ▸ closing)

namespace Closes

theorem expect
    {next : TokenIndex → Parser α}
    (closing : kind.closes? = some bracket)
    (keeps : ∀ index, Keeps kinds (next index)) :
    Closes kinds bracket (Parser.expect kind >>= next) := by
  intro position opened stands
  have ends :
      Ensures kinds (Parser.expect kind) position fun _ stop =>
        Reaches kinds stop opened (.code (Opened.other bracket).cue) :=
    expect_ends closing stands
  refine ensures_bind.mpr (ends.mono fun index middle reaches => ?_)
  exact keeps index trivial (reaches.stands rfl)

/-- A bracket stays open as long as the brackets are kept. -/
theorem after
    {parser : Parser α}
    {next : α → Parser β}
    (keeps : Keeps kinds parser)
    (closes : ∀ value, Closes kinds bracket (next value)) :
    Closes kinds bracket (parser >>= next) := by
  intro position opened stands
  refine ensures_bind.mpr ((keeps trivial stands).mono fun value middle stands => ?_)
  exact closes value stands

theorem bind
    {parser : Parser α}
    {next : α → Parser β}
    (closes : Closes kinds bracket parser)
    (keeps : ∀ value, Keeps kinds (next value)) :
    Closes kinds bracket (parser >>= next) := by
  intro position opened stands
  refine ensures_bind.mpr ((closes stands).mono fun value middle stands => ?_)
  exact keeps value trivial stands

end Closes

end Laws

section Cues

variable {ahead : List TokenKind} {kind : TokenKind}

/-- The token that is ahead has something to say about the next one. -/
theorem advance_leaves
    {cue : Cue}
    (announces : Cue.after kind = cue)
    (something : cue ≠ .nothing)
    (isAhead : Ahead kinds position (kind :: ahead))
    (stands : Stands kinds position opened) :
    Ensures kinds advance position fun _ stop => Reaches kinds stop opened (.code cue) := by
  obtain ⟨atKind, -⟩ := isAhead
  rw [← atKind] at announces
  refine ensures_advance.mpr ⟨fun isEof => ?_, fun _ lt => stands.leaves lt announces something⟩
  rw [isEof] at announces
  exact (something announces.symm).elim

theorem expect_leaves
    {cue : Cue}
    (announces : Cue.after kind = cue)
    (something : cue ≠ .nothing)
    (stands : Stands kinds position opened) :
    Ensures kinds (expect kind) position fun _ stop => Reaches kinds stop opened (.code cue) := by
  have notEof : kind ≠ .eof := by
    rintro rfl
    exact something announces.symm
  refine (ensures_expect notEof).mpr fun atKind lt => ?_
  rw [← atKind] at announces
  exact stands.leaves lt announces something

/-- A capture may follow here. -/
theorem skipCapture_keeps
    {next : Unit → Parser α}
    (keeps : ∀ value, Keeps kinds (next value))
    (reaches : Reaches kinds position opened (.code .capture)) :
    Ensures kinds (skipCapture >>= next) position fun _ stop => Stands kinds stop opened := by
  refine ensures_bind.mpr ((skipCapture_ends reaches).mono fun value middle stands => ?_)
  exact keeps value trivial stands

/-- A token is read that a capture may follow. -/
theorem KeepsFrom.advance_capture
    {next : TokenIndex → Unit → Parser α}
    (announces : Cue.after kind = .capture)
    (keeps : ∀ index value, Keeps kinds (next index value)) :
    KeepsFrom kinds (kind :: ahead)
      (Parser.advance >>= fun index => skipCapture >>= fun value => next index value) := by
  intro position opened isAhead stands
  refine ensures_bind.mpr ((advance_leaves announces (by decide) isAhead stands).mono ?_)
  intro index middle reaches
  exact skipCapture_keeps (keeps index) reaches

theorem expect_capture
    {next : TokenIndex → Unit → Parser α}
    (announces : Cue.after kind = .capture)
    (keeps : ∀ index value, Keeps kinds (next index value)) :
    Keeps kinds (expect kind >>= fun index => skipCapture >>= fun value => next index value) := by
  intro position opened _ stands
  refine ensures_bind.mpr ((expect_leaves announces (by decide) stands).mono ?_)
  intro index middle reaches
  exact skipCapture_keeps (keeps index) reaches

/-- A keyword is read with the arguments behind it. -/
theorem KeepsFrom.advance_arguments
    {next : TokenIndex → Unit → Parser α}
    (announces : Cue.after kind = .arguments)
    (keeps : ∀ index value, Keeps kinds (next index value)) :
    KeepsFrom kinds (kind :: ahead)
      (Parser.advance >>= fun index => skipParens >>= fun value => next index value) := by
  intro position opened isAhead stands
  refine ensures_bind.mpr ((advance_leaves announces (by decide) isAhead stands).mono ?_)
  intro index middle reaches
  refine ensures_bind.mpr ((skipParens_ends reaches).mono fun value stop stands => ?_)
  exact keeps index value trivial stands

/-- The keyword of an `if` or a loop is read with the head in parentheses and the capture. -/
theorem KeepsFrom.advance_head
    {body : Parser α}
    {next : TokenIndex → α → Unit → Parser β}
    (announces : Cue.after kind = .head)
    (bodyKeeps : Keeps kinds body)
    (keeps : ∀ index value skipped, Keeps kinds (next index value skipped)) :
    KeepsFrom kinds (kind :: ahead)
      (Parser.advance >>= fun index => expect .lParen >>= fun _ => body >>= fun value =>
        expect .rParen >>= fun _ => skipCapture >>= fun skipped => next index value skipped) := by
  intro position opened isAhead stands
  refine ensures_bind.mpr ((advance_leaves announces (by decide) isAhead stands).mono ?_)
  intro index afterKeyword reaches
  refine ensures_bind.mpr ((ensures_expect (by decide)).mpr fun atParen lt => ?_)
  have entered : Reaches kinds (afterKeyword + 1) (.head :: opened) (.code .nothing) :=
    reaches.follow lt (by rw [atParen]; rfl)
  refine ensures_bind.mpr ((bodyKeeps trivial (entered.stands rfl)).mono ?_)
  intro value afterBody stands
  have ends :
      Ensures kinds (expect .rParen) afterBody fun _ stop =>
        Reaches kinds stop opened (.code .capture) :=
    expect_ends rfl stands
  refine ensures_bind.mpr (ends.mono fun _ afterHead reaches => ?_)
  exact skipCapture_keeps (keeps index value) reaches

end Cues

end ZigLint.Parser
