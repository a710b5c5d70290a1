import ZigLint.Proofs.Parser.Runs

namespace ZigLint.Parser

/-!
# Progress of a parser

`Moves` says of a parser that it has a run from every place in bounds, and that it
reads a token at least where its answer requires one: always for a parser that
`Advances`, never for one that merely `Proceeds`, and for a round of a repetition
where it asks for another round. Laws join parsers that move as productions are
joined; one part that advances suffices for the whole.
-/

variable
  {kinds : Array TokenKind}
  {depth position : Nat}
  {kind : TokenKind}
  {ahead : List TokenKind}
  {must between : α → Prop}
  {parser : Parser α}

/-- The last token is the end of the file. -/
def EndsFile (kinds : Array TokenKind) : Prop :=
  kindAt kinds (kinds.size - 1) = .eof

/-- If the value answered has the property `must`, the run ends behind its start. -/
def Passes (position : Nat) (must : α → Prop) : (outcome : Except Mismatch (α × Nat)) → Prop
  | .ok (value, stop) => must value → position < stop
  | .error _ => True

/--
In front of tokens of the kinds `ahead` the parser has a run, which reads a token
if it answers a value with the property `must`.
-/
def Moves
    (kinds : Array TokenKind)
    (depth : Nat)
    (ahead : List TokenKind)
    (must : α → Prop)
    (parser : Parser α) :
    Prop :=
  EndsFile kinds →
  ∀ ⦃position⦄,
    InBounds kinds depth position →
    Ahead kinds position ahead →
    ∃ outcome, Runs kinds depth parser position outcome ∧ Passes position must outcome

/-- The parser has a run, and reads a token if it succeeds. -/
abbrev Advances (kinds : Array TokenKind) (depth : Nat) (parser : Parser α) : Prop :=
  Moves kinds depth [] (fun _ => True) parser

/-- The parser has a run, which may read nothing. -/
abbrev Proceeds (kinds : Array TokenKind) (depth : Nat) (parser : Parser α) : Prop :=
  Moves kinds depth [] (fun _ => False) parser

/-- The round of a repetition asks for another round. -/
def AsksAgain : (step : ForInStep α) → Prop
  | .done _ => False
  | .yield _ => True

/-- The round of a repetition has a run, and reads a token if it asks for another round. -/
abbrev Repeats
    (kinds : Array TokenKind)
    (depth : Nat)
    (round : Parser (ForInStep α)) :
    Prop :=
  Moves kinds depth [] AsksAgain round

/-- The round of a repetition has a run, and reads a token if it goes on. -/
abbrev GoesOn (kinds : Array TokenKind) (depth : Nat) (round : Parser Bool) : Prop :=
  Moves kinds depth [] (fun goesOn => goesOn = true) round

/-- The parser has a run that looks at tokens without reading them. -/
def Peeks (kinds : Array TokenKind) (depth : Nat) (parser : Parser α) : Prop :=
  ∀ ⦃position⦄,
    InBounds kinds depth position →
    ∃ value, Runs kinds depth parser position (.ok (value, position))

section Laws

theorem Moves.mono
    (moves : Moves kinds depth ahead between parser)
    (weakens : ∀ value, must value → between value) :
    Moves kinds depth ahead must parser := by
  intro endsFile position inside isAhead
  obtain ⟨outcome, run, passes⟩ := moves endsFile inside isAhead
  refine ⟨outcome, run, ?_⟩
  cases outcome with
  | error failure => trivial
  | ok answer => exact fun isMust => passes (weakens _ isMust)

/-- What moves everywhere moves in front of given tokens. -/
theorem Moves.from
    (moves : Moves kinds depth [] must parser) :
    Moves kinds depth ahead must parser :=
  fun endsFile _ inside _ => moves endsFile inside trivial

theorem Moves.proceeds
    (moves : Moves kinds depth ahead between parser) :
    Moves kinds depth ahead (fun _ => False) parser :=
  moves.mono fun _ => False.elim

/-- A parser that advances reads a token whatever it answers. -/
theorem Moves.of_advances
    (advances : Moves kinds depth ahead (fun _ => True) parser) :
    Moves kinds depth ahead must parser :=
  advances.mono fun _ _ => trivial

namespace Moves

theorem pure
    {value : α}
    (free : ¬ must value) :
    Moves kinds depth ahead must (pure value) :=
  fun _ _ inside _ => ⟨_, .pure inside, fun isMust => (free isMust).elim⟩

theorem mismatch
    {expectation : Expectation} :
    Moves kinds depth ahead must (mismatch expectation) :=
  fun _ _ inside _ => ⟨_, .mismatch inside, trivial⟩

theorem finish
    {form : NodeForm}
    {main first : TokenIndex}
    {children : List (Role × Ast)} :
    Proceeds kinds depth (finish form main first children) :=
  fun _ _ inside _ => ⟨_, .finish inside, False.elim⟩

variable
  {next : α → Parser β}
  {must : β → Prop}

/-- What the first part does not read, the second part must. -/
theorem bind_cases
    (moves : Moves kinds depth ahead between parser)
    (afterReading : ∀ value, between value → Proceeds kinds depth (next value))
    (otherwise : ∀ value, ¬ between value → Moves kinds depth [] must (next value)) :
    Moves kinds depth ahead must (parser >>= next) := by
  intro endsFile position inside isAhead
  obtain ⟨outcome, run, passes⟩ := moves endsFile inside isAhead
  cases outcome with
  | error failure => exact ⟨_, .bindFails run, trivial⟩
  | ok answer =>
      obtain ⟨value, middle⟩ := answer
      obtain ⟨-, onward, lt_size⟩ := run.bounds
      have inside : InBounds kinds depth middle := ⟨inside.depth_le, lt_size⟩
      by_cases isBetween : between value
      · obtain ⟨outcome, nextRun, -⟩ := afterReading value isBetween endsFile inside trivial
        refine ⟨outcome, .bind run nextRun, ?_⟩
        cases outcome with
        | error failure => trivial
        | ok answer => exact fun _ => Nat.lt_of_lt_of_le (passes isBetween) nextRun.bounds.2.1
      · obtain ⟨outcome, nextRun, passes⟩ := otherwise value isBetween endsFile inside trivial
        refine ⟨outcome, .bind run nextRun, ?_⟩
        cases outcome with
        | error failure => trivial
        | ok answer => exact fun isMust => Nat.lt_of_le_of_lt onward (passes isMust)

/-- Behind a parser that may read nothing, the rest reads what is required. -/
theorem bind
    (moves : Moves kinds depth ahead between parser)
    (rest : ∀ value, Moves kinds depth [] must (next value)) :
    Moves kinds depth ahead must (parser >>= next) :=
  bind_cases moves (fun value _ => (rest value).proceeds) fun value _ => rest value

/-- Behind a parser that advances, the rest may read nothing. -/
theorem first
    (advances : Moves kinds depth ahead (fun _ => True) parser)
    (rest : ∀ value, Proceeds kinds depth (next value)) :
    Moves kinds depth ahead must (parser >>= next) :=
  bind_cases advances (fun value _ => rest value) fun _ notTrue => (notTrue trivial).elim

/-- A look does not change what is ahead. -/
theorem look
    (peeks : Peeks kinds depth parser)
    (rest : ∀ value, Moves kinds depth ahead must (next value)) :
    Moves kinds depth ahead must (parser >>= next) := by
  intro endsFile position inside isAhead
  obtain ⟨value, run⟩ := peeks inside
  obtain ⟨outcome, restRun, passes⟩ := rest value endsFile inside isAhead
  exact ⟨outcome, .bind run restRun, passes⟩

end Moves

theorem map_advances
    {change : α → β}
    (advances : Advances kinds depth parser) :
    Advances kinds depth (change <$> parser) :=
  .first advances fun _ => .pure id

end Laws

section Tokens

theorem peek_peeks {distance : Nat} : Peeks kinds depth (peek distance) :=
  fun _ inside => ⟨_, .peek inside⟩

theorem current_peeks : Peeks kinds depth current :=
  peek_peeks

theorem here_peeks : Peeks kinds depth here :=
  fun _ inside => ⟨_, .here inside⟩

theorem previous_peeks : Peeks kinds depth previous :=
  fun _ inside => ⟨_, .previous inside⟩

theorem isAt_runs
    (inside : InBounds kinds depth position) :
    Runs kinds depth (isAt kind) position (.ok (kindAt kinds position == kind, position)) :=
  .bind (.peek inside) (.pure inside)

theorem isAt_peeks : Peeks kinds depth (isAt kind) :=
  fun _ inside => ⟨_, isAt_runs inside⟩

/-- Another token follows one that is not the end of the file. -/
theorem InBounds.succ
    (inside : InBounds kinds depth position)
    (endsFile : EndsFile kinds)
    (notEnd : kindAt kinds position ≠ .eof) :
    InBounds kinds depth (position + 1) := by
  have notLast : position ≠ kinds.size - 1 := by
    rintro rfl
    exact notEnd endsFile
  have lt_size := inside.lt_size
  exact ⟨inside.depth_le, by omega⟩

theorem advance_proceeds : Proceeds kinds depth advance := by
  intro endsFile position inside _
  by_cases atEnd : kindAt kinds position = .eof
  · exact ⟨_, .stays inside atEnd, False.elim⟩
  · exact ⟨_, .reads (inside.succ endsFile atEnd) atEnd, False.elim⟩

/-- A token that is ahead is read. -/
theorem advance_advances (notEof : kind ≠ .eof) :
    Moves kinds depth (kind :: ahead) (fun _ => True) advance := by
  rintro endsFile position inside ⟨atKind, -⟩
  have notEnd : kindAt kinds position ≠ .eof := fun atEnd => notEof (atKind.symm.trans atEnd)
  exact ⟨_, .reads (inside.succ endsFile notEnd) notEnd, fun _ => Nat.lt_succ_self position⟩

/-- A token that is ahead is read, and the rest may read nothing. -/
theorem Moves.advance
    {next : TokenIndex → Parser α}
    (notEof : kind ≠ .eof)
    (rest : ∀ index, Proceeds kinds depth (next index)) :
    Moves kinds depth (kind :: ahead) must (Parser.advance >>= next) :=
  .first (advance_advances notEof) rest

/-- What a parser does depends on the token that is ahead. -/
theorem moves_current
    {next : TokenKind → Parser α}
    (moves : ∀ kind, Moves kinds depth [kind] must (next kind)) :
    Moves kinds depth [] must (current >>= next) := by
  intro endsFile position inside _
  obtain ⟨outcome, run, passes⟩ := moves _ endsFile inside ⟨rfl, trivial⟩
  exact ⟨outcome, .bind (.peek inside) run, passes⟩

/-- What a parser does depends on whether a token of some kind is ahead. -/
theorem moves_isAt
    {next : Bool → Parser α}
    (there : Moves kinds depth [kind] must (next true))
    (elsewhere : ∀ other, other ≠ kind → Moves kinds depth [other] must (next false)) :
    Moves kinds depth [] must (isAt kind >>= next) := by
  intro endsFile position inside _
  by_cases atKind : kindAt kinds position = kind
  · obtain ⟨outcome, run, passes⟩ := there endsFile inside ⟨atKind, trivial⟩
    refine ⟨outcome, .bind (isAt_runs inside) ?_, passes⟩
    rw [beq_iff_eq.mpr atKind]
    exact run
  · obtain ⟨outcome, run, passes⟩ := elsewhere _ atKind endsFile inside ⟨rfl, trivial⟩
    refine ⟨outcome, .bind (isAt_runs inside) ?_, passes⟩
    rw [beq_eq_false_iff_ne.mpr atKind]
    exact run

/-- The token that is ahead is of its kind. -/
theorem Moves.isAt_ahead
    {next : Bool → Parser α}
    (rest : Moves kinds depth (kind :: ahead) must (next true)) :
    Moves kinds depth (kind :: ahead) must (isAt kind >>= next) := by
  rintro endsFile position inside ⟨atKind, isAhead⟩
  obtain ⟨outcome, run, passes⟩ := rest endsFile inside ⟨atKind, isAhead⟩
  refine ⟨outcome, .bind (isAt_runs inside) ?_, passes⟩
  rw [beq_iff_eq.mpr atKind]
  exact run

theorem accept?_moves (notEof : kind ≠ .eof) :
    Moves kinds depth [] (fun found => found.isSome) (accept? kind) := by
  refine moves_isAt ?_ fun _ _ => .pure nofun
  exact .advance notEof fun _ => .pure id

theorem accept_moves (notEof : kind ≠ .eof) :
    Moves kinds depth [] (fun found => found = true) (accept kind) :=
  .bind_cases (accept?_moves notEof) (fun _ _ => .pure id) fun _ notFound => .pure notFound

/-- A token that is ahead is accepted. -/
theorem accept_advances (notEof : kind ≠ .eof) :
    Moves kinds depth (kind :: ahead) (fun _ => True) (accept kind) :=
  .first (.isAt_ahead (.advance notEof fun _ => .pure id)) fun _ => .pure id

/-- Either the token was there and has been read, or the rest reads what is required. -/
theorem Moves.accept
    {next : Bool → Parser α}
    (notEof : kind ≠ .eof)
    (found : Proceeds kinds depth (next true))
    (absent : Moves kinds depth [] must (next false)) :
    Moves kinds depth [] must (Parser.accept kind >>= next) := by
  refine .bind_cases (accept_moves notEof) (fun value isFound => ?_) fun value notFound => ?_
  · rw [isFound]
    exact found
  · rw [eq_false_of_ne_true notFound]
    exact absent

/-- Either the token was there and has been read, or the rest reads what is required. -/
theorem Moves.accept?
    {next : Option TokenIndex → Parser α}
    (notEof : kind ≠ .eof)
    (found : ∀ index, Proceeds kinds depth (next (some index)))
    (absent : Moves kinds depth [] must (next none)) :
    Moves kinds depth [] must (Parser.accept? kind >>= next) := by
  refine .bind_cases (accept?_moves notEof) (fun value isFound => ?_) fun value notFound => ?_
  · obtain ⟨index, rfl⟩ := Option.isSome_iff_exists.mp isFound
    exact found index
  · obtain rfl := Option.not_isSome_iff_eq_none.mp notFound
    exact absent

theorem expect_advances (notEof : kind ≠ .eof) : Advances kinds depth (expect kind) :=
  .accept? notEof (fun _ => .pure id) .mismatch

theorem after?_proceeds
    (notEof : kind ≠ .eof)
    (proceeds : Moves kinds depth [] must parser) :
    Proceeds kinds depth (after? kind parser) :=
  .accept notEof (.bind proceeds fun _ => .pure id) (.pure id)

end Tokens

section Nesting

/-- One level deeper the parser reads what it reads. -/
theorem Moves.prefixExpr
    (allowed : depth < maxLevels)
    (deeper : Advances kinds (depth + 1) (unaryExpr (atDepth (depth + 1)))) :
    Advances kinds depth (atDepth depth).prefixExpr := by
  intro endsFile position inside _
  obtain ⟨outcome, run, passes⟩ := deeper endsFile ⟨allowed, inside.lt_size⟩ trivial
  exact ⟨outcome, .prefixExpr allowed run, passes⟩

theorem Moves.typeExpr
    (allowed : depth < maxLevels)
    (deeper : Advances kinds (depth + 1) (wrappedTypeExpr (atDepth (depth + 1)))) :
    Advances kinds depth (atDepth depth).typeExpr := by
  intro endsFile position inside _
  obtain ⟨outcome, run, passes⟩ := deeper endsFile ⟨allowed, inside.lt_size⟩ trivial
  exact ⟨outcome, .typeExpr allowed run, passes⟩

end Nesting

section Repetition

variable
  {round : α → Parser (ForInStep α)}
  {value : α}

/-- A repetition whose rounds read on comes to an end. -/
theorem exists_runs_iterate
    {position : Nat}
    (rounds : ∀ value, Repeats kinds depth (round value))
    (endsFile : EndsFile kinds)
    (inside : InBounds kinds depth position)
    (value : α) :
    ∃ outcome, Runs kinds depth (iterate round value) position outcome := by
  obtain ⟨outcome, run, passes⟩ := rounds value endsFile inside trivial
  match outcome with
  | .error failure => exact ⟨_, .failedRound run⟩
  | .ok (.done last, stop) => exact ⟨_, .lastRound run⟩
  | .ok (.yield next, middle) =>
      have progress : position < middle := passes trivial
      have lt_size : middle < kinds.size := run.bounds.2.2
      obtain ⟨outcome, rest⟩ :=
        exists_runs_iterate rounds endsFile ⟨inside.depth_le, lt_size⟩ next
      exact ⟨outcome, .furtherRound run progress rest⟩
  termination_by kinds.size - position

/-- A repetition reads what is required of its first round. -/
theorem Moves.iterate
    {required : Prop}
    (first : Moves kinds depth ahead (fun step => required ∨ AsksAgain step) (round value))
    (rounds : ∀ value, Repeats kinds depth (round value)) :
    Moves kinds depth ahead (fun _ => required) (iterate round value) := by
  intro endsFile position inside isAhead
  obtain ⟨outcome, run, passes⟩ := first endsFile inside isAhead
  match outcome with
  | .error failure => exact ⟨_, .failedRound run, trivial⟩
  | .ok (.done last, stop) => exact ⟨_, .lastRound run, fun isMust => passes (.inl isMust)⟩
  | .ok (.yield next, middle) =>
      have progress : position < middle := passes (.inr trivial)
      have lt_size : middle < kinds.size := run.bounds.2.2
      obtain ⟨outcome, rest⟩ :=
        exists_runs_iterate rounds endsFile ⟨inside.depth_le, lt_size⟩ next
      refine ⟨outcome, .furtherRound run progress rest, ?_⟩
      cases outcome with
      | error failure => trivial
      | ok answer => exact fun _ => Nat.lt_of_lt_of_le progress rest.bounds.2.1

theorem iterate_proceeds
    (rounds : ∀ value, Repeats kinds depth (round value)) :
    Proceeds kinds depth (iterate round value) :=
  .iterate ((rounds value).mono fun _ again => again.resolve_left id) rounds

/-- A repetition reads a token if its first round does. -/
theorem iterate_advances
    (first : Moves kinds depth ahead (fun _ => True) (round value))
    (rounds : ∀ value, Repeats kinds depth (round value)) :
    Moves kinds depth ahead (fun _ => True) (iterate round value) :=
  .iterate first.of_advances rounds

/-- A round that goes on is one that asks for another. -/
theorem GoesOn.repeats
    {round : Parser Bool}
    (goesOn : GoesOn kinds depth round) :
    Repeats kinds depth
      (round >>= fun again => if again = true then pure (.yield ()) else pure (.done ())) := by
  refine .bind_cases goesOn (fun again _ => ?_) fun again stops => ?_
  · cases again <;> exact .pure id
  · rw [eq_false_of_ne_true stops]
    exact .pure id

theorem repeatWhile_proceeds
    {round : Parser Bool}
    (goesOn : GoesOn kinds depth round) :
    Proceeds kinds depth (repeatWhile round) :=
  iterate_proceeds fun _ => goesOn.repeats

theorem repeatWhile_advances
    {round : Parser Bool}
    (first : Moves kinds depth ahead (fun _ => True) round)
    (goesOn : GoesOn kinds depth round) :
    Moves kinds depth ahead (fun _ => True) (repeatWhile round) := by
  refine iterate_advances (.first first fun again => ?_) fun _ => goesOn.repeats
  cases again <;> exact .pure id

theorem collect_proceeds
    {round : Parser (ForInStep (List α))}
    (repeats : Repeats kinds depth round) :
    Proceeds kinds depth (collect round) := by
  refine .bind (iterate_proceeds fun lists => .bind_cases repeats ?_ ?_) fun _ => .pure id
  · intro step _
    cases step <;> exact .pure id
  · intro step asksNoMore
    cases step with
    | done last => exact .pure id
    | yield more => exact (asksNoMore trivial).elim

theorem collect_advances
    {round : Parser (ForInStep (List α))}
    (advances : Advances kinds depth round) :
    Advances kinds depth (collect round) := by
  refine .first (iterate_advances ?_ fun lists => ?_) fun _ => .pure id
  all_goals
    refine .first advances fun step => ?_
    cases step <;> exact .pure id

end Repetition

end ZigLint.Parser
