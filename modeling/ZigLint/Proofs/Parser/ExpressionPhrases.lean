import ZigLint.Proofs.Syntax.Grammar

namespace ZigLint.Parser

/-!
# Phrases of operator expressions

`Gives` says that all values of a parser have a property, wherever it starts. Its
laws join the parts of a production as the production does. Whatever phrases the
two productions of the next nesting level give, the operator expressions,
arguments and initializers over them are phrases, too.
-/

variable {kinds : Array TokenKind} {inner : Inner}

/-- Every successful run of the parser over `kinds` ends in a value with the property. -/
def Gives (kinds : Array TokenKind) (good : α → Prop) (parser : Parser α) : Prop :=
  ∀ position, Ensures kinds parser position fun value _ => good value

namespace Gives

variable {good : α → Prop} {other : β → Prop}

theorem pure
    {value : α}
    (holds : good value) :
    Gives kinds good (pure value) :=
  fun _ => ensures_pure.mpr holds

theorem mismatch {expectation : Expectation} :
    Gives kinds good (mismatch expectation) :=
  fun _ => ensures_mismatch.mpr trivial

/-- What a parser gives may be used by what follows it. -/
theorem bind
    {parser : Parser α}
    {next : α → Parser β}
    (first : Gives kinds good parser)
    (second : ∀ value, good value → Gives kinds other (next value)) :
    Gives kinds other (parser >>= next) := by
  intro position
  refine ensures_bind.mpr ((first position).mono fun value middle holds => ?_)
  exact second value holds middle

/-- What a parser gives may be ignored. -/
theorem skip
    {parser : Parser α}
    {next : α → Parser β}
    (gives : ∀ value, Gives kinds other (next value)) :
    Gives kinds other (parser >>= next) := by
  intro position
  refine ensures_bind.mpr fun value middle _ => ?_
  exact gives value middle

theorem weaken
    {parser : Parser α}
    {weak : α → Prop}
    (gives : Gives kinds good parser)
    (weakens : ∀ value, good value → weak value) :
    Gives kinds weak parser :=
  fun position => (gives position).mono fun value _ => weakens value

/-- A value that is there is as good as one that may be missing. -/
theorem some
    {parser : Parser α}
    (gives : Gives kinds good parser) :
    Gives kinds (fun value? => ∀ value ∈ value?, good value)
      (parser >>= fun value => Pure.pure (some value)) := by
  refine gives.bind fun value holds => .pure ?_
  rintro _ ⟨⟩
  exact holds

/-- A round that goes on with a new value. -/
theorem next
    {parser : Parser α}
    (gives : Gives kinds good parser) :
    Gives kinds (fun step => good step.value)
      (parser >>= fun value => Pure.pure (ForInStep.yield value)) :=
  gives.bind fun _ holds => .pure holds

/-- A round that adds one value. -/
theorem yield
    {parser : Parser α}
    (gives : Gives kinds good parser) :
    Gives kinds (fun step => ∀ value ∈ step.value, good value)
      (parser >>= fun value => Pure.pure (ForInStep.yield [value])) :=
  gives.bind fun _ holds => .pure (List.forall_mem_singleton.mpr holds)

theorem after?
    {kind : TokenKind}
    {parser : Parser α}
    (gives : Gives kinds good parser) :
    Gives kinds (fun value? => ∀ value ∈ value?, good value) (after? kind parser) := by
  refine .skip fun found => ?_
  cases found with
  | false => exact .pure nofun
  | true => exact gives.some

/-- What every round keeps holds at the end of a repetition. -/
theorem iterate
    {round : α → Parser (ForInStep α)}
    {value : α}
    (keeps : ∀ value, good value → Gives kinds (fun step => good step.value) (round value))
    (holds : good value) :
    Gives kinds good (iterate round value) :=
  fun _ => ensures_iterate (fun value _ => good value)
    (fun value position holds => keeps value holds position) holds

theorem collect
    {round : Parser (ForInStep (List α))}
    (gives : Gives kinds (fun step => ∀ value ∈ step.value, good value) round) :
    Gives kinds (fun values => ∀ value ∈ values, good value) (collect round) := by
  intro position
  refine ensures_collect (fun values _ => ∀ value ∈ values, good value) ?_ nofun
  intro before middle holds
  refine (gives middle).mono fun step _ stepHolds => ?_
  exact List.forall_mem_append.mpr ⟨holds, stepHolds⟩

/-- A node whose children fill the slots of its form is a phrase. -/
theorem finish
    {category : Category}
    {form : NodeForm}
    {main first : TokenIndex}
    {children : List (Role × Ast)}
    (admitted : category.admits (powerAt kinds main) form = true)
    (fits : Fits (Phrase kinds) (form.slots (powerAt kinds main)) children) :
    Gives kinds (Phrase kinds category) (finish form main first children) :=
  fun _ => ensures_finish.mpr (.node admitted fits)

end Gives

/-- Both productions of the next nesting level give phrases. -/
structure InnerGives
    (kinds : Array TokenKind)
    (inner : Inner) :
    Prop where
  prefixExpr : Gives kinds (Phrase kinds .operand) inner.prefixExpr
  typeExpr : Gives kinds (Phrase kinds .type) inner.typeExpr

theorem bindingPower?_bounds
    {kind : TokenKind}
    {power : Nat}
    (hasPower : kind.bindingPower? = some power) :
    0 < power ∧ power ≤ 7 := by
  unfold TokenKind.bindingPower? at hasPower
  split at hasPower <;> simp_all <;> omega

/-- An operator joins what binds at least as tightly with what binds more tightly. -/
theorem joined_phrase
    {head : NodeHead}
    {left right : Ast}
    {level : Nat}
    (isOperator : head.form.isOperator = true)
    (hasPower : (kindAt kinds head.main.val).bindingPower? = some (7 - level))
    (leftPhrase : Phrase kinds (.joined (level + 1)) left)
    (rightPhrase : Phrase kinds (.joined level) right) :
    Phrase kinds (.joined (level + 1)) (.node head [(.left, left), (.right, right)]) := by
  have bounds := bindingPower?_bounds hasPower
  have powerEq : powerAt kinds head.main = 7 - level := by
    rw [powerAt, hasPower]
    rfl
  refine .node ?_ ?_
  · show head.form.isJoined (level + 1) (powerAt kinds head.main) = true
    rw [NodeForm.isJoined_of_isOperator isOperator, powerEq]
    omega
  · have leftLevel : 8 - (7 - level) = level + 1 := by omega
    have rightLevel : 7 - (7 - level) = level := by omega
    rw [NodeForm.slots_of_isOperator isOperator, powerEq, leftLevel, rightLevel]
    exact .one leftPhrase (.one rightPhrase .nil)

/--
Every level of operator expressions gives a phrase of this level.

Along a chain of operators of one power the operand on the left stays an expression
of the level that this power opens.
-/
theorem binaryExpr_gives
    (gives : InnerGives kinds inner)
    (level : Nat) :
    Gives kinds (Phrase kinds (.joined level)) (binaryExpr inner level) := by
  induction level with
  | zero => exact gives.prefixExpr.weaken fun _ => Phrase.operand_joined
  | succ level inductionHypothesis =>
      refine .skip fun start => inductionHypothesis.bind fun operand operandPhrase => ?_
      refine .iterate ?_ operandPhrase.joined_succ
      intro left leftPhrase position
      simp only [ensures_bind, ensures_current, ensures_ite, ensures_finish, ensures_pure]
      refine ⟨fun hasPower => ?_, fun _ => leftPhrase⟩
      have notEof : kindAt kinds position ≠ .eof := by
        intro isEof
        rw [isEof] at hasPower
        cases hasPower
      have isOperator :
          (if kindAt kinds position = .pipePipe then NodeForm.mergeErrorSets
            else .binaryOp).isOperator = true := by
        split <;> rfl
      refine ensures_advance.mpr ⟨fun isEof => (notEof isEof).elim, fun _ _ => ⟨?_, ?_⟩⟩
      · intro _ _ middle _
        exact (inductionHypothesis middle).mono fun right _ rightPhrase =>
          joined_phrase isOperator hasPower leftPhrase rightPhrase
      · intro _
        exact (inductionHypothesis _).mono fun right _ rightPhrase =>
          joined_phrase isOperator hasPower leftPhrase rightPhrase

theorem expr_gives
    (gives : InnerGives kinds inner) :
    Gives kinds (Phrase kinds .expr) (expr inner) :=
  binaryExpr_gives gives 7

theorem assignExpr_gives
    (gives : InnerGives kinds inner) :
    Gives kinds (Phrase kinds .assignment) (assignExpr inner) := by
  refine .skip fun start => (expr_gives gives).bind fun left leftPhrase => .skip fun kind => ?_
  split
  case h_3 => exact .pure leftPhrase.expr_assignment
  all_goals
    refine .skip fun operator => (expr_gives gives).bind fun right rightPhrase => ?_
    exact .finish rfl (.one leftPhrase (.one rightPhrase .nil))

/-- Parts that are separated by commas have what every part has. -/
theorem separated_gives
    {good : α → Prop}
    {closing : TokenKind}
    {item : Parser (List α)}
    (gives : Gives kinds (fun parts => ∀ part ∈ parts, good part) item) :
    Gives kinds (fun parts => ∀ part ∈ parts, good part) (separated closing item) := by
  refine .collect (.skip fun atEnd => ?_)
  cases atEnd with
  | true => exact .pure nofun
  | false =>
      refine gives.bind fun parts partsHold => .skip fun goesOn => ?_
      cases goesOn <;> exact .pure partsHold

theorem singleton_gives
    {good : α → Prop}
    {parser : Parser α}
    (gives : Gives kinds good parser) :
    Gives kinds (fun parts => ∀ part ∈ parts, good part) (List.singleton <$> parser) := by
  intro position
  refine ensures_map.mpr ((gives position).mono fun value _ holds => ?_)
  exact List.forall_mem_singleton.mpr holds

theorem callArguments_gives
    (gives : InnerGives kinds inner) :
    Gives kinds (fun arguments => ∀ argument ∈ arguments, Phrase kinds .expr argument)
      (callArguments inner) := by
  refine .skip fun _ => ?_
  refine (separated_gives (singleton_gives (expr_gives gives))).bind fun arguments phrases => ?_
  exact .skip fun _ => .pure phrases

theorem initializerEntry_gives
    (gives : InnerGives kinds inner) :
    Gives kinds (Phrase kinds .entry) (initializerEntry inner) := by
  refine .skip fun first => .skip fun second => .skip fun third => ?_
  split
  · refine .skip fun _ => .skip fun _ => .skip fun _ => ?_
    refine (expr_gives gives).bind fun value valuePhrase => ?_
    exact .finish rfl (.one valuePhrase .nil)
  · exact (expr_gives gives).weaken fun _ => Phrase.expr_entry

/-- An initializer has its type, if there is one, before its entries. -/
theorem initializerList_gives
    (gives : InnerGives kinds inner)
    {start : TokenIndex}
    {type? : Option Ast}
    (typePhrase : ∀ type ∈ type?, Phrase kinds .type type) :
    Gives kinds (Phrase kinds .type) (initializerList inner start type?) := by
  refine .skip fun brace => ?_
  refine (separated_gives (singleton_gives (initializerEntry_gives gives))).bind
    fun entries entryPhrases => .skip fun _ => ?_
  exact .finish rfl (.optional typePhrase (.lastMany entryPhrases))

end ZigLint.Parser
