import ZigLint.Proofs.Parser.Keeps

namespace ZigLint.Parser

/-!
# Runs of a parser, step by step

`Runs` unfolds a parser into its steps: a look at a token, a read token, a node,
a failure, a round of a repetition, and the way into the next nesting level and
back. Every step happens in front of an existing token and within the allowed
depth. A repetition has no guard here: a round that asks for another one has read
a token, and for a round that asks without having read one there is no rule. A
run is finite, so a parser that has one comes to an end.
-/

variable
  {kinds : Array TokenKind}
  {depth position : Nat}

/-- The parser stands in front of an existing token, within the allowed depth. -/
structure InBounds
    (kinds : Array TokenKind)
    (depth position : Nat) :
    Prop where
  depth_le : depth ≤ maxLevels
  lt_size : position < kinds.size

/-- The nesting productions of a parser that is `depth` levels deep. -/
def atDepth (depth : Nat) : Inner :=
  levels (maxLevels - depth)

/--
At the given depth `parser` runs from a position to an outcome.

A nesting production counts one level up, runs, and answers at the level it
started from, whether it succeeds or fails.
-/
inductive Runs (kinds : Array TokenKind) :
    (depth : Nat) →
    {α : Type} →
    (parser : Parser α) →
    (position : Nat) →
    (outcome : Except Mismatch (α × Nat)) →
    Prop where
  | pure
      {depth position : Nat}
      {α : Type}
      {value : α} :
      InBounds kinds depth position →
      Runs kinds depth (pure value) position (.ok (value, position))
  | peek
      {depth position ahead : Nat} :
      InBounds kinds depth position →
      Runs kinds depth (peek ahead) position (.ok (kindAt kinds (position + ahead), position))
  | previous
      {depth position : Nat} :
      InBounds kinds depth position →
      Runs kinds depth previous position
        (.ok (if position = 0 then .eof else kindAt kinds (position - 1), position))
  | here
      {depth position : Nat} :
      InBounds kinds depth position →
      Runs kinds depth here position (.ok (⟨position⟩, position))
  | finish
      {depth position : Nat}
      {form : NodeForm}
      {main first : TokenIndex}
      {children : List (Role × Ast)} :
      InBounds kinds depth position →
      Runs kinds depth (finish form main first children) position
        (.ok
          (.node { form, main, first, last := ⟨max (position - 1) first.val⟩ } children,
            position))
  | mismatch
      {depth position : Nat}
      {α : Type}
      {expectation : Expectation} :
      InBounds kinds depth position →
      Runs kinds depth (mismatch expectation : Parser α) position
        (.error { position := ⟨position⟩, expectation })
  | stays
      {depth position : Nat} :
      InBounds kinds depth position →
      kindAt kinds position = .eof →
      Runs kinds depth advance position (.ok (⟨position⟩, position))
  | reads
      {depth position : Nat} :
      InBounds kinds depth (position + 1) →
      kindAt kinds position ≠ .eof →
      Runs kinds depth advance position (.ok (⟨position⟩, position + 1))
  | bind
      {depth position middle : Nat}
      {α β : Type}
      {parser : Parser α}
      {next : α → Parser β}
      {value : α}
      {outcome : Except Mismatch (β × Nat)} :
      Runs kinds depth parser position (.ok (value, middle)) →
      Runs kinds depth (next value) middle outcome →
      Runs kinds depth (parser >>= next) position outcome
  | bindFails
      {depth position : Nat}
      {α β : Type}
      {parser : Parser α}
      {next : α → Parser β}
      {failure : Mismatch} :
      Runs kinds depth parser position (.error failure) →
      Runs kinds depth (parser >>= next) position (.error failure)
  | lastRound
      {depth position stop : Nat}
      {α : Type}
      {round : α → Parser (ForInStep α)}
      {value last : α} :
      Runs kinds depth (round value) position (.ok (.done last, stop)) →
      Runs kinds depth (iterate round value) position (.ok (last, stop))
  | failedRound
      {depth position : Nat}
      {α : Type}
      {round : α → Parser (ForInStep α)}
      {value : α}
      {failure : Mismatch} :
      Runs kinds depth (round value) position (.error failure) →
      Runs kinds depth (iterate round value) position (.error failure)
  | furtherRound
      {depth position middle : Nat}
      {α : Type}
      {round : α → Parser (ForInStep α)}
      {value next : α}
      {outcome : Except Mismatch (α × Nat)} :
      Runs kinds depth (round value) position (.ok (.yield next, middle)) →
      position < middle →
      Runs kinds depth (iterate round next) middle outcome →
      Runs kinds depth (iterate round value) position outcome
  | prefixExpr
      {depth position : Nat}
      {outcome : Except Mismatch (Ast × Nat)} :
      depth < maxLevels →
      Runs kinds (depth + 1) (unaryExpr (atDepth (depth + 1))) position outcome →
      Runs kinds depth (atDepth depth).prefixExpr position outcome
  | typeExpr
      {depth position : Nat}
      {outcome : Except Mismatch (Ast × Nat)} :
      depth < maxLevels →
      Runs kinds (depth + 1) (wrappedTypeExpr (atDepth (depth + 1))) position outcome →
      Runs kinds depth (atDepth depth).typeExpr position outcome

/-- Below the allowed depth a nesting production is one of the next level. -/
theorem atDepth_of_lt (allowed : depth < maxLevels) :
    atDepth depth =
      {
        prefixExpr := unaryExpr (atDepth (depth + 1))
        typeExpr := wrappedTypeExpr (atDepth (depth + 1))
      } := by
  have oneMore : maxLevels - depth = maxLevels - (depth + 1) + 1 := by omega
  rw [atDepth, oneMore, levels]
  rfl

/-- At the allowed depth both nesting productions fail. -/
theorem atDepth_of_le (exhausted : maxLevels ≤ depth) :
    atDepth depth =
      {
        prefixExpr := mismatch .shallowerNesting
        typeExpr := mismatch .shallowerNesting
      } := by
  rw [atDepth, Nat.sub_eq_zero_of_le exhausted, levels]

/-- Where a run ends: in front of the next token to read, or of the one it failed at. -/
def endOf : Except Mismatch (α × Nat) → Nat
  | .ok (_, stop) => stop
  | .error failure => failure.position.val

theorem bind_apply
    {parser : Parser α}
    {next : α → Parser β} :
    (parser >>= next) kinds position =
      match parser kinds position with
      | .error failure => .error failure
      | .ok (value, middle) => next value kinds middle := by
  simp only [bind, ReaderT.bind, StateT.bind, Except.bind]
  cases parser kinds position <;> rfl

/-- The end of the file stays unread, any other token is read. -/
theorem advance_apply :
    advance kinds position =
      .ok (⟨position⟩, if kindAt kinds position = .eof then position else position + 1) := by
  have unfolded :
      advance kinds position =
        (if (kindAt kinds position == .eof) = true then pure ⟨position⟩
          else modify (· + 1) >>= fun _ => pure ⟨position⟩ : Parser TokenIndex) kinds position :=
    rfl
  rw [unfolded]
  by_cases atEnd : kindAt kinds position = .eof
  · rw [if_pos atEnd, if_pos (beq_iff_eq.mpr atEnd)]
    rfl
  · rw [if_neg atEnd, if_neg (fun isEof => atEnd (beq_iff_eq.mp isEof))]
    rfl

namespace Runs

variable
  {parser : Parser α}
  {outcome : Except Mismatch (α × Nat)}

/-- A run ends within the token list and never goes back. -/
theorem bounds
    (run : Runs kinds depth parser position outcome) :
    InBounds kinds depth position ∧
      position ≤ endOf outcome ∧
        endOf outcome < kinds.size := by
  induction run with
  | pure inside | peek inside | previous inside | here inside | finish inside
  | mismatch inside => exact ⟨inside, Nat.le_refl _, inside.lt_size⟩
  | stays inside _ => exact ⟨inside, Nat.le_refl _, inside.lt_size⟩
  | reads inside _ =>
    exact ⟨⟨inside.depth_le, Nat.lt_of_succ_lt inside.lt_size⟩, Nat.le_succ _, inside.lt_size⟩
  | bind _ _ first second =>
      exact ⟨first.1, Nat.le_trans first.2.1 second.2.1, second.2.2⟩
  | bindFails _ first => exact first
  | lastRound _ round => exact round
  | failedRound _ round => exact round
  | furtherRound _ _ _ round rest =>
      exact ⟨round.1, Nat.le_trans round.2.1 rest.2.1, rest.2.2⟩
  | prefixExpr allowed _ deeper | typeExpr allowed _ deeper =>
      exact ⟨⟨Nat.le_of_lt allowed, deeper.1.lt_size⟩, deeper.2⟩

/-- The outcome of a run is what the parser answers. -/
theorem eq
    (run : Runs kinds depth parser position outcome) :
    parser kinds position = outcome := by
  induction run with
  | pure | peek | here | finish | mismatch => rfl
  | @previous _ position => cases position <;> rfl
  | stays _ atEnd => rw [advance_apply, if_pos atEnd]
  | reads _ notEnd => rw [advance_apply, if_neg notEnd]
  | bind _ _ first second =>
      rw [bind_apply, first]
      exact second
  | bindFails _ first => rw [bind_apply, first]
  | lastRound _ round => rw [iterate, round]
  | failedRound _ round => rw [iterate, round]
  | furtherRound roundRun progress restRun round rest =>
      have inside := roundRun.bounds.2.2
      rw [iterate, round, ← rest]
      exact if_pos ⟨progress, Nat.le_of_lt inside⟩
  | prefixExpr allowed _ deeper | typeExpr allowed _ deeper =>
      rw [atDepth_of_lt allowed]
      exact deeper

end Runs

end ZigLint.Parser
