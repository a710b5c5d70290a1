import ZigLint.Proofs.Parser.DeclarationPhrases

namespace ZigLint.Parser

/-!
# Phrases of primary and type expressions

The productions that open a nesting level give phrases if those of the next level
do, so every level does, and the members of a file are phrases.
-/

variable {kinds : Array TokenKind} {inner : Inner} {start : TokenIndex}

theorem elseBranch?_gives
    (gives : InnerGives kinds inner) :
    Gives kinds (fun branch? => ∀ branch ∈ branch?, Phrase kinds .assignment branch)
      (elseBranch? inner) :=
  .after? (.skip fun _ => assignExpr_gives gives)

theorem ifExpr_gives
    (gives : InnerGives kinds inner) :
    Gives kinds (Phrase kinds .type) (ifExpr inner start) := by
  refine .skip fun main => .skip fun _ => ?_
  refine (expr_gives gives).bind fun condition conditionPhrase => .skip fun _ => ?_
  refine .skip fun _ => (assignExpr_gives gives).bind fun branch branchPhrase => ?_
  refine (elseBranch?_gives gives).bind fun otherwise? otherwisePhrase => ?_
  exact .finish rfl (.one conditionPhrase (.one branchPhrase (.lastOptional otherwisePhrase)))

theorem rangeEnd?_gives
    (gives : InnerGives kinds inner)
    {isOpen : TokenKind → Bool} :
    Gives kinds (fun bound? => ∀ bound ∈ bound?, Phrase kinds .expr bound)
      (rangeEnd? inner isOpen) := by
  refine .skip fun isRange => ?_
  cases isRange with
  | true =>
      refine .skip fun kind => ?_
      split
      · exact .pure nofun
      · exact (expr_gives gives).some
  | false => exact .pure nofun

/-- A value that is there together with one that may be missing. -/
theorem forall_mem_cons_toList
    {good : α → Prop}
    {value : α}
    {value? : Option α}
    (holds : good value)
    (optionalHolds : ∀ value ∈ value?, good value) :
    ∀ item ∈ value :: value?.toList, good item := by
  refine List.forall_mem_cons.mpr ⟨holds, fun item member => ?_⟩
  exact optionalHolds item (Option.mem_toList.mp member)

theorem loopInputs_gives
    (gives : InnerGives kinds inner)
    {isFor : Bool} :
    Gives kinds (fun inputs => ∀ input ∈ inputs, Phrase kinds .expr input)
      (loopInputs inner isFor) := by
  cases isFor with
  | true =>
      refine separated_gives ((expr_gives gives).bind fun input phrase => ?_)
      refine (rangeEnd?_gives gives).bind fun bound? boundPhrase => .pure ?_
      exact forall_mem_cons_toList phrase boundPhrase
  | false => exact singleton_gives (expr_gives gives)

theorem loopContinuation?_gives
    (gives : InnerGives kinds inner)
    {isFor : Bool} :
    Gives kinds (fun continuation? =>
        ∀ continuation ∈ continuation?, Phrase kinds .assignment continuation)
      (loopContinuation? inner isFor) := by
  cases isFor with
  | true => exact .pure nofun
  | false =>
      refine .after? (.skip fun _ => ?_)
      exact (assignExpr_gives gives).bind fun _ phrase => .skip fun _ => .pure phrase

theorem loopExpr_gives
    (gives : InnerGives kinds inner) :
    Gives kinds (Phrase kinds .operand) (loopExpr inner start) := by
  refine .skip fun isFor => .skip fun main => .skip fun _ => ?_
  refine (loopInputs_gives gives).bind fun inputs inputPhrases => .skip fun _ => .skip fun _ => ?_
  refine (loopContinuation?_gives gives).bind fun continuation? continuationPhrase => ?_
  refine (assignExpr_gives gives).bind fun body bodyPhrase => ?_
  refine (elseBranch?_gives gives).bind fun otherwise? otherwisePhrase => ?_
  have fits :
      Fits (Phrase kinds) (NodeForm.forLoop.slots (powerAt kinds main))
        (childrenIn .part inputs ++ (childIn .part continuation? ++
          ((.part, body) :: childIn .part otherwise?))) :=
    .many inputPhrases
      (.optional continuationPhrase (.one bodyPhrase (.lastOptional otherwisePhrase)))
  rw [List.append_assoc, List.append_assoc, List.singleton_append]
  cases isFor with
  | true => exact .finish rfl fits
  | false => exact .finish rfl fits

theorem prongItems_gives
    (gives : InnerGives kinds inner) :
    Gives kinds (fun items => ∀ item ∈ items, Phrase kinds .expr item) (prongItems inner) := by
  refine .collect ((expr_gives gives).bind fun item itemPhrase => ?_)
  refine (expr_gives gives).after?.bind fun upper? upperPhrase => .skip fun goesOn => ?_
  have phrases := forall_mem_cons_toList itemPhrase upperPhrase
  cases goesOn with
  | true =>
      refine .skip fun atArrow => ?_
      cases atArrow <;> exact .pure phrases
  | false => exact .pure phrases

theorem switchProng_gives
    (gives : InnerGives kinds inner) :
    Gives kinds (Phrase kinds .prong) (switchProng inner) := by
  have selector :
      Gives kinds (fun items => ∀ item ∈ items, Phrase kinds .expr item) (prongSelector inner) := by
    refine .skip fun isElse => ?_
    cases isElse with
    | true => exact .pure nofun
    | false => exact prongItems_gives gives
  refine .skip fun start => .skip fun _ => selector.bind fun items itemPhrases => ?_
  refine .skip fun arrow => .skip fun _ => ?_
  refine (assignExpr_gives gives).bind fun body bodyPhrase => ?_
  exact .finish rfl (.many itemPhrases (.one bodyPhrase .nil))

theorem switchExpr_gives
    (gives : InnerGives kinds inner) :
    Gives kinds (Phrase kinds .type) (switchExpr inner start) := by
  refine .skip fun main => .skip fun _ => ?_
  refine (expr_gives gives).bind fun subject subjectPhrase => .skip fun _ => .skip fun _ => ?_
  refine .bind (.collect (.skip fun atEnd => ?_)) fun prongs prongPhrases => .skip fun _ =>
    .finish rfl (.one subjectPhrase (.lastMany prongPhrases))
  cases atEnd with
  | true => exact .pure nofun
  | false =>
      refine (switchProng_gives gives).bind fun prong phrase => .skip fun _ => .pure ?_
      exact List.forall_mem_singleton.mpr phrase

theorem curlySuffixExpr_gives
    (gives : InnerGives kinds inner) :
    Gives kinds (Phrase kinds .type) (curlySuffixExpr inner) := by
  refine .skip fun start => gives.typeExpr.bind fun type typePhrase => .skip fun atBrace => ?_
  cases atBrace with
  | true =>
      refine initializerList_gives gives ?_
      rintro _ ⟨⟩
      exact typePhrase
  | false => exact .pure typePhrase

theorem operand?_gives
    (gives : InnerGives kinds inner) :
    Gives kinds (fun operand? => ∀ operand ∈ operand?, Phrase kinds .expr operand)
      (operand? inner) := by
  refine .skip fun kind => ?_
  split
  · exact .pure nofun
  · exact (expr_gives gives).some

theorem primaryExpr_gives
    (gives : InnerGives kinds inner) :
    Gives kinds (Phrase kinds .operand) (primaryExpr inner) := by
  refine .skip fun start => .skip fun first => .skip fun second => .skip fun third => ?_
  split
  case h_1 =>
    refine .skip fun _ => (operand?_gives gives).bind fun value? valuePhrase => ?_
    exact .finish rfl (.lastOptional valuePhrase)
  case h_2 =>
    refine .skip fun _ => .skip fun _ => ?_
    refine (operand?_gives gives).bind fun value? valuePhrase => ?_
    exact .finish rfl (.lastOptional valuePhrase)
  case h_3 => exact .skip fun _ => .skip fun _ => .finish rfl .nil
  case h_4 => exact (ifExpr_gives gives).weaken fun _ => Phrase.type_operand
  case h_5 | h_6 => exact loopExpr_gives gives
  case h_7 | h_8 => exact .skip fun _ => loopExpr_gives gives
  case h_9 => exact (switchExpr_gives gives).weaken fun _ => Phrase.type_operand
  case h_10 => exact (block_gives gives).weaken fun _ => Phrase.block_operand
  case h_11 =>
    refine .skip fun _ => .skip fun _ => ?_
    exact (block_gives gives).weaken fun _ => Phrase.block_operand
  case h_12 | h_13 | h_14 =>
    exact .skip fun _ => .skip fun _ => .skip fun _ => loopExpr_gives gives
  case h_15 => exact (curlySuffixExpr_gives gives).weaken fun _ => Phrase.type_operand

theorem unaryExpr_gives
    (gives : InnerGives kinds inner) :
    Gives kinds (Phrase kinds .operand) (unaryExpr inner) := by
  refine .skip fun start => .skip fun kind => ?_
  split
  case h_8 => exact .skip fun _ => gives.prefixExpr
  case h_9 => exact primaryExpr_gives gives
  all_goals
    refine .skip fun _ => gives.prefixExpr.bind fun operand operandPhrase => ?_
    exact .finish rfl (.one operandPhrase .nil)

theorem primaryTypeExpr_gives
    (gives : InnerGives kinds inner) :
    Gives kinds (Phrase kinds .type) (primaryTypeExpr inner) := by
  refine .skip fun start => .skip fun kind => .skip fun next => ?_
  split
  case h_1 =>
    refine .skip fun _ => (callArguments_gives gives).bind fun arguments argumentPhrases => ?_
    exact .finish rfl (.lastMany argumentPhrases)
  case h_2 | h_3 | h_4 | h_5 | h_6 | h_7 | h_8 => exact .skip fun _ => .finish rfl .nil
  case h_9 => exact .skip fun _ => .skip fun name => .finish rfl .nil
  case h_10 => exact .skip fun _ => initializerList_gives gives nofun
  case h_11 | h_12 => exact .skip fun _ => .skip fun _ => .skip fun _ => .finish rfl .nil
  case h_13 => exact (prototype_gives gives).weaken fun _ => Phrase.prototype_type
  case h_14 =>
    refine .skip fun _ => (expr_gives gives).bind fun expression phrase => .skip fun _ => ?_
    exact .finish rfl (.one phrase .nil)
  case h_25 =>
    refine .skip fun _ => gives.typeExpr.bind fun type typePhrase => ?_
    exact .finish rfl (.one typePhrase.type_operand .nil)
  case h_26 => exact ifExpr_gives gives
  case h_27 => exact switchExpr_gives gives
  case h_28 => exact .mismatch
  all_goals exact containerDecl_gives gives

theorem indexParts_gives
    (gives : InnerGives kinds inner) :
    Gives kinds (fun parts => ∀ part ∈ parts, Phrase kinds .expr part) (indexParts inner) := by
  refine (expr_gives gives).bind fun index indexPhrase => ?_
  refine (rangeEnd?_gives gives).bind fun stop? stopPhrase => ?_
  refine (expr_gives gives).after?.bind fun sentinel? sentinelPhrase => .skip fun _ => .pure ?_
  refine List.forall_mem_cons.mpr ⟨indexPhrase, List.forall_mem_append.mpr ⟨?_, ?_⟩⟩
  · exact fun stop member => stopPhrase stop (Option.mem_toList.mp member)
  · exact fun sentinel member => sentinelPhrase sentinel (Option.mem_toList.mp member)

/-- Along a chain of suffixes the subject stays a phrase where a type is expected. -/
theorem suffixExpr_gives
    (gives : InnerGives kinds inner) :
    Gives kinds (Phrase kinds .type) (suffixExpr inner) := by
  refine .skip fun start => (primaryTypeExpr_gives gives).bind fun subject subjectPhrase => ?_
  refine .iterate (fun subject subjectPhrase => ?_) subjectPhrase
  refine .skip fun kind => .skip fun next => ?_
  split
  case h_1 | h_2 =>
    exact .skip fun _ => .skip fun name => .next (.finish rfl (.one subjectPhrase .nil))
  case h_3 | h_4 => exact .skip fun operator => .next (.finish rfl (.one subjectPhrase .nil))
  case h_5 =>
    refine .skip fun bracket => (indexParts_gives gives).bind fun parts partPhrases => ?_
    exact .next (.finish rfl (.one subjectPhrase (.lastMany partPhrases)))
  case h_6 =>
    refine .skip fun paren => (callArguments_gives gives).bind fun arguments argumentPhrases => ?_
    exact .next (.finish rfl (.one subjectPhrase (.lastMany argumentPhrases)))
  case h_7 => exact .pure subjectPhrase

theorem errorUnionExpr_gives
    (gives : InnerGives kinds inner) :
    Gives kinds (Phrase kinds .type) (errorUnionExpr inner) := by
  refine .skip fun start => (suffixExpr_gives gives).bind fun errors errorsPhrase => ?_
  refine .skip fun bang? => ?_
  cases bang? with
  | some bang =>
      refine gives.typeExpr.bind fun payload payloadPhrase => ?_
      exact .finish rfl (.present errorsPhrase (.one payloadPhrase .nil))
  | none => exact .pure errorsPhrase

theorem bracketBounds_gives
    (gives : InnerGives kinds inner) :
    Gives kinds (fun found => ∀ bound ∈ found.1, Phrase kinds .expr bound)
      (bracketBounds inner) := by
  refine .skip fun kind => ?_
  split
  · exact .pure nofun
  · refine .skip fun _ => .skip fun _ => ?_
    refine (expr_gives gives).after?.bind fun sentinel? sentinelPhrase => .pure ?_
    exact fun bound member => sentinelPhrase bound (Option.mem_toList.mp member)
  · refine .skip fun _ => (expr_gives gives).bind fun bound phrase => .pure ?_
    exact List.forall_mem_singleton.mpr phrase
  · refine (expr_gives gives).bind fun length lengthPhrase => ?_
    refine (expr_gives gives).after?.bind fun sentinel? sentinelPhrase => .pure ?_
    exact forall_mem_cons_toList lengthPhrase sentinelPhrase

theorem bracketType_gives
    (gives : InnerGives kinds inner) :
    Gives kinds (Phrase kinds .type) (bracketType inner start) := by
  refine .skip fun _ => (bracketBounds_gives gives).bind fun ⟨bounds, isArray⟩ boundPhrases => ?_
  refine .skip fun _ => .skip fun _ => gives.typeExpr.bind fun element elementPhrase => ?_
  cases isArray with
  | true => exact .finish rfl (.many boundPhrases (.one elementPhrase .nil))
  | false => exact .finish rfl (.many boundPhrases (.one elementPhrase .nil))

theorem wrappedTypeExpr_gives
    (gives : InnerGives kinds inner) :
    Gives kinds (Phrase kinds .type) (wrappedTypeExpr inner) := by
  refine .skip fun start => .skip fun kind => ?_
  split
  case h_1 =>
    refine .skip fun _ => gives.typeExpr.bind fun type typePhrase => ?_
    exact .finish rfl (.one typePhrase .nil)
  case h_2 | h_3 =>
    refine .skip fun _ => .skip fun _ => gives.typeExpr.bind fun type typePhrase => ?_
    exact .finish rfl (.noMore (.one typePhrase .nil))
  case h_4 => exact bracketType_gives gives
  case h_5 => exact errorUnionExpr_gives gives

/-- Every nesting level gives phrases. -/
theorem levels_gives
    (count : Nat) :
    InnerGives kinds (levels count) := by
  induction count with
  | zero => exact ⟨.mismatch, .mismatch⟩
  | succ count inductionHypothesis =>
      exact ⟨unaryExpr_gives inductionHypothesis, wrappedTypeExpr_gives inductionHypothesis⟩

/-- The members of a file are phrases. -/
theorem file_gives :
    Gives kinds (fun members => ∀ member ∈ members, Phrase kinds .member member) file := by
  refine (containerMembers_gives (levels_gives maxLevels)).bind fun members phrases => ?_
  refine .skip fun atEnd => ?_
  cases atEnd with
  | true => exact .pure phrases
  | false => exact .mismatch

end ZigLint.Parser
