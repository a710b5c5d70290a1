import ZigLint.Syntax.Parser.Primary

namespace ZigLint.Parser

/-!
# What a successful run of a parser guarantees

`Ensures` is the weakest condition under which a run of a parser, if it does not
fail, ends in a value and a position with a given property. Every primitive of
the parser has one law that says exactly what it ensures; a production is opened
by rewriting with these laws, and a repetition by naming its invariant.
-/

variable {kinds : Array TokenKind} {position : Nat}

/-- The kind of the token at a position; past the end, end of file. -/
def kindAt (kinds : Array TokenKind) (position : Nat) : TokenKind :=
  kinds.getD position .eof

/-- A position whose token is not the end of file lies in the token list. -/
theorem lt_size_of_kindAt_ne_eof
    (notEof : kindAt kinds position ≠ .eof) :
    position < kinds.size := by
  apply Nat.lt_of_not_le
  intro outside
  apply notEof
  rw [kindAt, Array.getD_eq_getD_getElem?, Array.getElem?_eq_none outside]
  rfl

/--
Every successful run of `parser` over `kinds` from `position` ends in a value
and a position with the property `post`.
-/
def Ensures
    (kinds : Array TokenKind)
    (parser : Parser α)
    (position : Nat)
    (post : α → Nat → Prop) :
    Prop :=
  ∀ value stop, parser kinds position = .ok (value, stop) → post value stop

theorem Ensures.mono
    {parser : Parser α}
    {strong weak : α → Nat → Prop}
    (ensures : Ensures kinds parser position strong)
    (weakens : ∀ value stop, strong value stop → weak value stop) :
    Ensures kinds parser position weak := by
  intro value stop run
  exact weakens value stop (ensures value stop run)

section Laws

variable {post : α → Nat → Prop}

/-- A parser that succeeds ensures what its one outcome has. -/
theorem ensures_of_run
    {parser : Parser α}
    {value : α}
    {stop : Nat}
    (succeeds : parser kinds position = .ok (value, stop)) :
    Ensures kinds parser position post ↔ post value stop := by
  constructor
  · intro ensures
    exact ensures value stop succeeds
  · intro holds value' stop' run
    rw [succeeds] at run
    cases run
    exact holds

theorem ensures_pure {value : α} :
    Ensures kinds (pure value) position post ↔ post value position :=
  ensures_of_run rfl

theorem ensures_bind
    {parser : Parser β}
    {next : β → Parser α} :
    Ensures kinds (parser >>= next) position post ↔
      Ensures kinds parser position fun value middle =>
        Ensures kinds (next value) middle post := by
  have run_bind :
      (parser >>= next) kinds position =
        match parser kinds position with
        | .error mismatch => .error mismatch
        | .ok (value, middle) => next value kinds middle := by
    simp only [bind, ReaderT.bind, StateT.bind, Except.bind]
    cases parser kinds position <;> rfl
  constructor
  · intro ensures value middle run value' stop run'
    apply ensures
    rw [run_bind, run]
    exact run'
  · intro ensures value' stop run
    rw [run_bind] at run
    split at run
    · cases run
    · rename_i value middle run'
      exact ensures value middle run' value' stop run

theorem ensures_map
    {parser : Parser β}
    {f : β → α} :
    Ensures kinds (f <$> parser) position post ↔
      Ensures kinds parser position fun value stop => post (f value) stop := by
  have map_as_bind : f <$> parser = parser >>= fun value => pure (f value) :=
    rfl
  rw [map_as_bind, ensures_bind]
  simp only [ensures_pure]

theorem ensures_ite
    {condition : Prop}
    [Decidable condition]
    {whenTrue whenFalse : Parser α} :
    Ensures kinds (if condition then whenTrue else whenFalse) position post ↔
      (condition → Ensures kinds whenTrue position post) ∧
        (¬ condition → Ensures kinds whenFalse position post) := by
  by_cases holds : condition <;> simp [holds]

theorem ensures_mismatch {expectation : Expectation} :
    Ensures kinds (mismatch expectation) position post ↔ True := by
  refine ⟨fun _ => trivial, fun _ value stop run => ?_⟩
  cases run

end Laws

section Tokens

theorem ensures_peek
    {ahead : Nat}
    {post : TokenKind → Nat → Prop} :
    Ensures kinds (peek ahead) position post ↔
      post (kindAt kinds (position + ahead)) position :=
  ensures_of_run rfl

theorem ensures_current {post : TokenKind → Nat → Prop} :
    Ensures kinds current position post ↔ post (kindAt kinds position) position :=
  ensures_of_run rfl

theorem ensures_previous {post : TokenKind → Nat → Prop} :
    Ensures kinds previous position post ↔
      post (if position = 0 then .eof else kindAt kinds (position - 1)) position := by
  cases position with
  | zero => exact ensures_of_run rfl
  | succ before => exact ensures_of_run rfl

theorem ensures_here {post : TokenIndex → Nat → Prop} :
    Ensures kinds here position post ↔ post ⟨position⟩ position :=
  ensures_of_run rfl

theorem ensures_isAt
    {kind : TokenKind}
    {post : Bool → Nat → Prop} :
    Ensures kinds (isAt kind) position post ↔
      post (kindAt kinds position == kind) position :=
  ensures_of_run rfl

/-- The end of file stays unread; any other token lies in the list and is read. -/
theorem ensures_advance {post : TokenIndex → Nat → Prop} :
    Ensures kinds advance position post ↔
      (kindAt kinds position = .eof → post ⟨position⟩ position) ∧
        (kindAt kinds position ≠ .eof → position < kinds.size →
          post ⟨position⟩ (position + 1)) := by
  have ensures_modify :
      ∀ {change : Nat → Nat} {after : Unit → Nat → Prop},
        Ensures kinds (modify change) position after ↔ after () (change position) :=
    ensures_of_run rfl
  unfold advance
  simp only [ensures_bind, ensures_here, ensures_isAt, beq_iff_eq, ensures_ite,
    ensures_pure, ensures_modify]
  constructor
  · intro holds
    exact ⟨holds.1, fun notEof _ => holds.2 notEof⟩
  · intro holds
    exact ⟨holds.1, fun notEof => holds.2 notEof (lt_size_of_kindAt_ne_eof notEof)⟩

theorem ensures_accept?
    {kind : TokenKind}
    (notEof : kind ≠ .eof)
    {post : Option TokenIndex → Nat → Prop} :
    Ensures kinds (accept? kind) position post ↔
      (kindAt kinds position = kind → position < kinds.size →
          post (some ⟨position⟩) (position + 1)) ∧
        (kindAt kinds position ≠ kind → post none position) := by
  unfold accept?
  simp only [ensures_bind, ensures_isAt, beq_iff_eq, ensures_ite, ensures_advance,
    ensures_pure]
  constructor
  · intro holds
    refine ⟨fun found inside => ?_, holds.2⟩
    exact (holds.1 found).2 (found ▸ notEof) inside
  · intro holds
    refine ⟨fun found => ⟨fun atEof => ?_, fun _ inside => holds.1 found inside⟩, holds.2⟩
    exact (notEof (found.symm.trans atEof)).elim

theorem ensures_accept
    {kind : TokenKind}
    (notEof : kind ≠ .eof)
    {post : Bool → Nat → Prop} :
    Ensures kinds (accept kind) position post ↔
      (kindAt kinds position = kind → position < kinds.size →
          post true (position + 1)) ∧
        (kindAt kinds position ≠ kind → post false position) := by
  unfold accept
  simp only [ensures_bind, ensures_accept? notEof, ensures_pure, Option.isSome_some,
    Option.isSome_none]

theorem ensures_expect
    {kind : TokenKind}
    (notEof : kind ≠ .eof)
    {post : TokenIndex → Nat → Prop} :
    Ensures kinds (expect kind) position post ↔
      (kindAt kinds position = kind → position < kinds.size →
        post ⟨position⟩ (position + 1)) := by
  unfold expect
  simp only [ensures_bind, ensures_accept? notEof, ensures_pure, ensures_mismatch,
    implies_true, and_true]

theorem ensures_after?
    {kind : TokenKind}
    (notEof : kind ≠ .eof)
    {parser : Parser α}
    {post : Option α → Nat → Prop} :
    Ensures kinds (after? kind parser) position post ↔
      (kindAt kinds position = kind → position < kinds.size →
          Ensures kinds parser (position + 1) fun value stop => post (some value) stop) ∧
        (kindAt kinds position ≠ kind → post none position) := by
  unfold after?
  simp only [ensures_bind, ensures_accept notEof, ensures_pure, if_true,
    Bool.false_eq_true, if_false]

theorem ensures_finish
    {form : NodeForm}
    {main first : TokenIndex}
    {children : List (Role × Ast)}
    {post : Ast → Nat → Prop} :
    Ensures kinds (finish form main first children) position post ↔
      post
        (.node { form, main, first, last := ⟨max (position - 1) first.val⟩ } children)
        position :=
  ensures_of_run rfl

end Tokens

section Repetition

/--
What every round establishes holds at the end of a repetition, if it suffices
for a further round.
-/
theorem ensures_iterate_after
    {round : α → Parser (ForInStep α)}
    (before after : α → Nat → Prop)
    (established :
      ∀ value position,
        before value position →
        Ensures kinds (round value) position fun step stop =>
          after step.value stop)
    (sufficesAgain : ∀ value position, after value position → before value position)
    {value : α}
    (holds : before value position) :
    Ensures kinds (iterate round value) position after := by
  intro result stop run
  fun_induction iterate round value kinds position with
  | case1 value position mismatch failed =>
      cases run
  | case2 value position last stopped answered =>
      cases run
      exact established value position holds _ _ answered
  | case3 value position next stopped answered inside inductionHypothesis =>
      have roundHolds := established value position holds _ _ answered
      exact inductionHypothesis (sufficesAgain next stopped roundHolds) run
  | case4 value position next stopped answered outside =>
      cases run
      exact established value position holds _ _ answered

/--
What the last round establishes holds at the end of a repetition, if every other
round reads on and preserves what the rounds rely on.
-/
theorem ensures_iterate_until
    {round : α → Parser (ForInStep α)}
    (invariant post : α → Nat → Prop)
    (preserved :
      ∀ value position,
        invariant value position →
        Ensures kinds (round value) position fun step stop =>
          match step with
          | .done last => post last stop
          | .yield next => invariant next stop ∧ position < stop ∧ stop ≤ kinds.size)
    {value : α}
    (holds : invariant value position) :
    Ensures kinds (iterate round value) position post := by
  intro result stop run
  fun_induction iterate round value kinds position with
  | case1 value position mismatch failed =>
      cases run
  | case2 value position last stopped answered =>
      cases run
      exact preserved value position holds _ _ answered
  | case3 value position next stopped answered inside inductionHypothesis =>
      have roundHolds := preserved value position holds _ _ answered
      exact inductionHypothesis roundHolds.1 run
  | case4 value position next stopped answered outside =>
      have roundHolds := preserved value position holds _ _ answered
      exact (outside roundHolds.2).elim

/-- What every round preserves holds at the end of a repetition. -/
theorem ensures_iterate
    {round : α → Parser (ForInStep α)}
    (invariant : α → Nat → Prop)
    (preserved :
      ∀ value position,
        invariant value position →
        Ensures kinds (round value) position fun step stop =>
          invariant step.value stop)
    {value : α}
    (holds : invariant value position) :
    Ensures kinds (iterate round value) position invariant :=
  ensures_iterate_after invariant invariant preserved (fun _ _ => id) holds

/--
The list that a repetition collects is built by appending the lists of its
rounds, so it has what the empty list has and every appending keeps.
-/
theorem ensures_collect
    {round : Parser (ForInStep (List α))}
    (invariant : List α → Nat → Prop)
    (preserved :
      ∀ before position,
        invariant before position →
        Ensures kinds round position fun step stop =>
          invariant (before ++ step.value) stop)
    (holds : invariant [] position) :
    Ensures kinds (collect round) position invariant := by
  unfold collect
  simp only [ensures_bind, ensures_pure]
  refine ensures_iterate
    (fun (lists : List (List α)) position => invariant lists.reverse.flatten position) ?_
    (by simpa using holds)
  intro lists position listsHold
  simp only [ensures_bind]
  refine (preserved _ position listsHold).mono fun step stop stepHolds => ?_
  cases step with
  | done last => simpa [ensures_pure, ForInStep.value] using stepHolds
  | yield more => simpa [ensures_pure, ForInStep.value] using stepHolds

end Repetition

end ZigLint.Parser
