import ZigLint.Token.Kind

namespace ZigLint

/-!
# Brackets

A sequence of token kinds is balanced if every closing bracket closes the
innermost open one and none is left open.

A parser of declarations does not read every token: it passes over the arguments
of modifiers, over captures and over the names of tests, whatever stands there.
`Walk` reads token kinds from left to right and tells these stretches from the
code around them by the tokens before them alone. It keeps the open brackets of
the code and the stretches that it has passed over.
-/

/-- The three kinds of brackets. -/
inductive Bracket where
  | paren
  | brace
  | square
  deriving Repr, DecidableEq

namespace TokenKind

/-- The bracket that a token opens. -/
def opens? : TokenKind → Option Bracket
  | .lParen => some .paren
  | .lBrace => some .brace
  | .lBracket => some .square
  | _ => none

/-- The bracket that a token closes. -/
def closes? : TokenKind → Option Bracket
  | .rParen => some .paren
  | .rBrace => some .brace
  | .rBracket => some .square
  | _ => none

/-- The token is a parenthesis. -/
def isParen (kind : TokenKind) : Bool :=
  kind == .lParen || kind == .rParen

end TokenKind

namespace Bracket

/-- The open brackets after a token, the innermost first, unless it closes another one. -/
def after? (opened : List Bracket) (kind : TokenKind) : Option (List Bracket) :=
  match kind.opens?, kind.closes?, opened with
  | some bracket, _, _ => some (bracket :: opened)
  | none, none, _ => some opened
  | none, some bracket, innermost :: others => if bracket = innermost then some others else none
  | none, some _, [] => none

/-- The open brackets after several tokens. -/
def afterAll? (opened : List Bracket) (kinds : List TokenKind) : Option (List Bracket) :=
  kinds.foldlM after? opened

end Bracket

/-- Every closing bracket closes the innermost open one, and none is left open. -/
def IsBalanced (kinds : List TokenKind) : Prop :=
  Bracket.afterAll? [] kinds = some []

instance (kinds : List TokenKind) : Decidable (IsBalanced kinds) :=
  inferInstanceAs (Decidable (_ = _))

namespace Bracket

variable {opened left : List Bracket} {kinds : List TokenKind}

theorem afterAll?_append (front back : List TokenKind) :
    afterAll? opened (front ++ back) =
      (afterAll? opened front).bind fun middle => afterAll? middle back :=
  List.foldlM_append

theorem afterAll?_concat (front : List TokenKind) (kind : TokenKind) :
    afterAll? opened (front ++ [kind]) =
      (afterAll? opened front).bind fun middle => after? middle kind := by
  rw [afterAll?_append]
  congr 1
  funext middle
  exact bind_pure (after? middle kind)

/-- Brackets that are open further out do not matter. -/
theorem after?_append
    {kind : TokenKind}
    (further : List Bracket)
    (answered : after? opened kind = some left) :
    after? (opened ++ further) kind = some (left ++ further) := by
  unfold after? at answered ⊢
  cases opens : kind.opens? with
  | some bracket =>
      rw [opens] at answered
      cases answered
      rfl
  | none =>
      rw [opens] at answered
      cases closes : kind.closes? with
      | none =>
          rw [closes] at answered
          cases answered
          rfl
      | some bracket =>
          rw [closes] at answered
          cases opened with
          | nil => cases answered
          | cons innermost others =>
              by_cases same : bracket = innermost
              · simp only [if_pos same] at answered
                cases answered
                simp only [List.cons_append, if_pos same]
              · simp only [if_neg same] at answered
                cases answered

theorem afterAll?_frame
    (further : List Bracket)
    (answered : afterAll? opened kinds = some left) :
    afterAll? (opened ++ further) kinds = some (left ++ further) := by
  induction kinds generalizing opened with
  | nil =>
      cases answered
      rfl
  | cons kind kinds inductionHypothesis =>
      obtain ⟨middle, first, later⟩ := Option.bind_eq_some_iff.mp answered
      refine Option.bind_eq_some_iff.mpr ⟨middle ++ further, after?_append further first, ?_⟩
      exact inductionHypothesis later

end Bracket

/-- Balanced tokens leave the brackets around them as they are. -/
theorem IsBalanced.afterAll?_eq
    {kinds : List TokenKind}
    (balanced : IsBalanced kinds)
    (opened : List Bracket) :
    Bracket.afterAll? opened kinds = some opened :=
  Bracket.afterAll?_frame opened balanced

namespace Brackets

/-- What a token says about the one after it. -/
inductive Cue where
  | nothing
  | head
  | capture
  | arguments
  | testName
  | tag
  | tagType
  deriving Repr, DecidableEq

namespace Cue

/-- What a token that is no bracket says about the next one. -/
def after : TokenKind → Cue
  | .keyword .kwIf | .keyword .kwWhile | .keyword .kwFor => .head
  | .keyword .kwElse | .keyword .kwCatch | .keyword .kwDefer | .keyword .kwErrDefer
  | .fatArrow => .capture
  | .keyword .kwAlign | .keyword .kwLinkSection | .keyword .kwAddrSpace
  | .keyword .kwCallConv => .arguments
  | .keyword .kwTest => .testName
  | .keyword .kwStruct | .keyword .kwEnum | .keyword .kwUnion | .keyword .kwOpaque => .tag
  | _ => .nothing

/-- The next token is the one that the cue is about. -/
def claims : Cue → TokenKind → Bool
  | .nothing, _ => false
  | .head, kind | .arguments, kind | .tag, kind => kind == .lParen
  | .capture, kind => kind == .pipe
  | .testName, kind => kind != .lBrace
  | .tagType, kind => kind == .keyword .kwEnum

end Cue

/-- A bracket that is open: the parenthesis of an `if` or a loop, or any other bracket. -/
inductive Opened where
  | head
  | other (bracket : Bracket)
  deriving Repr, DecidableEq

namespace Opened

/-- The bracket itself. -/
def bracket : Opened → Bracket
  | .head => .paren
  | .other bracket => bracket

/-- What the closing bracket says about the next token. -/
def cue : Opened → Cue
  | .head => .capture
  | .other _ => .nothing

end Opened

/-- Tokens that are passed over: arguments, a capture without its bars, or the name of a test. -/
inductive Stretch where
  | arguments (kinds : List TokenKind)
  | capture (kinds : List TokenKind)
  | testName (kind : TokenKind)
  deriving Repr, DecidableEq

namespace Stretch

/-- The tokens of a stretch. -/
def kinds : Stretch → List TokenKind
  | .arguments kinds | .capture kinds => kinds
  | .testName kind => [kind]

/-- What is known of a stretch: only parentheses are counted, and a bar ends a capture. -/
def IsProper : Stretch → Prop
  | .arguments kinds => IsBalanced (kinds.filter TokenKind.isParen)
  | .capture kinds => .pipe ∉ kinds
  | .testName kind => kind ≠ .lBrace

end Stretch

/-- How tokens are taken: as code after a cue, or as part of a stretch. -/
inductive Mode where
  | code (cue : Cue)
  | arguments (depth : Nat) (kinds : List TokenKind)
  | capture (kinds : List TokenKind)
  deriving Repr, DecidableEq

namespace Mode

/-- The tokens of the stretch that has not ended yet. -/
def pending : Mode → List TokenKind
  | .code _ => []
  | .arguments _ kinds | .capture kinds => kinds

end Mode

namespace Cue

/-- The open brackets after the token that the cue is about. -/
def openedAfter (opened : List Opened) : Cue → List Opened
  | .head => .head :: opened
  | .arguments | .tag => .other .paren :: opened
  | .nothing | .capture | .testName | .tagType => opened

/-- How the tokens after the one that the cue is about are taken. -/
def modeAfter : Cue → Mode
  | .arguments => .arguments 0 []
  | .capture => .capture []
  | .tag => .code .tagType
  | .tagType => .code .arguments
  | .nothing | .head | .testName => .code .nothing

end Cue

/-- A walk over token kinds: the open brackets, the tokens taken as code and the stretches. -/
structure Walk where
  opened : List Opened
  mode : Mode
  taken : List TokenKind
  passed : List Stretch
  deriving Repr, DecidableEq

namespace Walk

/-- The walk before the first token. -/
def start : Walk where
  opened := []
  mode := .code .nothing
  taken := []
  passed := []

/-- Take a token as code, unless it closes another bracket than the innermost one. -/
def take? (walk : Walk) (kind : TokenKind) : Option Walk :=
  let taken := walk.taken ++ [kind]
  match kind.opens?, kind.closes?, walk.opened with
  | some bracket, _, _ =>
      some { walk with opened := .other bracket :: walk.opened, mode := .code .nothing, taken }
  | none, none, _ => some { walk with mode := .code (Cue.after kind), taken }
  | none, some bracket, innermost :: others =>
      if bracket = innermost.bracket then
        some { walk with opened := others, mode := .code innermost.cue, taken }
      else
        none
  | none, some _, [] => none

/-- A stretch has ended. -/
def pass (walk : Walk) (stretch : Stretch) : Walk :=
  { walk with passed := walk.passed ++ [stretch] }

/-- Take the token that a cue is about, or pass over it if it is the name of a test. -/
def follow (walk : Walk) (kind : TokenKind) (cue : Cue) : Walk :=
  let after := { walk with opened := cue.openedAfter walk.opened, mode := cue.modeAfter }
  if cue = .testName then
    after.pass (.testName kind)
  else
    { after with taken := walk.taken ++ [kind] }

/-- Number of open parentheses in arguments after a further token. -/
def depthAfter (depth : Nat) : TokenKind → Nat
  | .lParen => depth + 1
  | .rParen => depth - 1
  | _ => depth

/-- Go on by one token. -/
def step? (walk : Walk) (kind : TokenKind) : Option Walk :=
  match walk.mode with
  | .code cue => if cue.claims kind then some (walk.follow kind cue) else walk.take? kind
  | .arguments depth kinds =>
      if kind = .rParen ∧ depth = 0 then
        (walk.pass (.arguments kinds)).take? kind
      else
        some { walk with mode := .arguments (depthAfter depth kind) (kinds ++ [kind]) }
  | .capture kinds =>
      if kind = .pipe then
        (walk.pass (.capture kinds)).take? kind
      else
        some { walk with mode := .capture (kinds ++ [kind]) }

/-- The walk over all of the given token kinds. -/
def along? (kinds : List TokenKind) : Option Walk :=
  kinds.foldlM step? start

end Walk

/-- What is known of a stretch that has not ended yet. -/
def Mode.IsProper : Mode → Prop
  | .code _ => True
  | .arguments depth kinds =>
      Bracket.afterAll? [] (kinds.filter TokenKind.isParen) = some (List.replicate depth .paren)
  | .capture kinds => .pipe ∉ kinds

namespace Walk

variable {walk next : Walk} {kind : TokenKind} {kinds : List TokenKind}

/--
Every token has been taken or passed over. The open brackets are those of the
tokens that have been taken, and those of all tokens if the stretches between
them are balanced.
-/
structure Tracks (walk : Walk) (kinds : List TokenKind) : Prop where
  complete : kinds.Perm (walk.taken ++ walk.passed.flatMap Stretch.kinds)
  taken : Bracket.afterAll? [] walk.taken = some (walk.opened.map Opened.bracket)
  proper : ∀ stretch ∈ walk.passed, stretch.IsProper
  balanced :
    (∀ stretch ∈ walk.passed, IsBalanced stretch.kinds) →
      Bracket.afterAll? [] kinds = some (walk.opened.map Opened.bracket)

/-- The tokens so far are those that are tracked and those of the stretch that goes on. -/
def Covers (walk : Walk) (kinds : List TokenKind) : Prop :=
  ∃ before, kinds = before ++ walk.mode.pending ∧ walk.Tracks before ∧ walk.mode.IsProper

theorem opened_follow (cue : Cue) :
    (walk.follow kind cue).opened = cue.openedAfter walk.opened := by
  unfold follow
  split <;> rfl

theorem mode_follow (cue : Cue) : (walk.follow kind cue).mode = cue.modeAfter := by
  unfold follow
  split <;> rfl

theorem take?_eq_some
    (answered : walk.take? kind = some next) :
    Bracket.after? (walk.opened.map Opened.bracket) kind =
        some (next.opened.map Opened.bracket) ∧
      next.taken = walk.taken ++ [kind] ∧ next.passed = walk.passed ∧
        ∃ cue, next.mode = .code cue := by
  unfold take? at answered
  unfold Bracket.after?
  cases opens : kind.opens? with
  | some bracket =>
      rw [opens] at answered
      cases answered
      exact ⟨rfl, rfl, rfl, .nothing, rfl⟩
  | none =>
      rw [opens] at answered
      cases closes : kind.closes? with
      | none =>
          rw [closes] at answered
          cases answered
          exact ⟨rfl, rfl, rfl, _, rfl⟩
      | some bracket =>
          rw [closes] at answered
          cases opened : walk.opened with
          | nil =>
              rw [opened] at answered
              cases answered
          | cons innermost others =>
              rw [opened] at answered
              by_cases same : bracket = innermost.bracket
              · simp only [if_pos same] at answered
                cases answered
                exact ⟨if_pos same, rfl, rfl, _, rfl⟩
              · simp only [if_neg same] at answered
                cases answered

/-- A token that is taken as code is tracked. -/
theorem Tracks.extend
    (tracks : walk.Tracks kinds)
    (bracketsAfter :
      Bracket.after? (walk.opened.map Opened.bracket) kind =
        some (next.opened.map Opened.bracket))
    (takenAfter : next.taken = walk.taken ++ [kind])
    (samePassed : next.passed = walk.passed) :
    next.Tracks (kinds ++ [kind]) where
  complete := by
    rw [takenAfter, samePassed, List.append_assoc]
    refine (tracks.complete.append_right [kind]).trans ?_
    rw [List.append_assoc]
    exact List.perm_append_comm.append_left walk.taken
  taken := by
    rw [takenAfter, Bracket.afterAll?_concat, tracks.taken]
    exact bracketsAfter
  proper := by
    rw [samePassed]
    exact tracks.proper
  balanced := by
    intro passedBalanced
    rw [samePassed] at passedBalanced
    rw [Bracket.afterAll?_concat, tracks.balanced passedBalanced]
    exact bracketsAfter

/-- A stretch that is passed over is tracked. -/
theorem Tracks.pass
    {stretch : Stretch}
    (tracks : walk.Tracks kinds)
    (proper : stretch.IsProper) :
    (walk.pass stretch).Tracks (kinds ++ stretch.kinds) where
  complete := by
    refine (tracks.complete.append_right stretch.kinds).trans ?_
    simp [Walk.pass]
  taken := tracks.taken
  proper := by
    intro other isIn
    obtain isIn | isIn := List.mem_append.mp isIn
    · exact tracks.proper other isIn
    · rw [List.mem_singleton.mp isIn]
      exact proper
  balanced := by
    intro passedBalanced
    obtain ⟨before, last⟩ := List.forall_mem_append.mp passedBalanced
    rw [Bracket.afterAll?_append, tracks.balanced before]
    exact (last stretch (List.mem_singleton_self stretch)).afterAll?_eq _

theorem Tracks.covers_code
    {cue : Cue}
    (tracks : walk.Tracks kinds)
    (isCode : walk.mode = .code cue) :
    walk.Covers kinds := by
  refine ⟨kinds, ?_, tracks, ?_⟩
  · rw [isCode]
    exact (List.append_nil kinds).symm
  · rw [isCode]
    trivial

theorem Tracks.take
    (tracks : walk.Tracks kinds)
    (answered : walk.take? kind = some next) :
    next.Covers (kinds ++ [kind]) := by
  obtain ⟨bracketsAfter, takenAfter, samePassed, cue, isCode⟩ := take?_eq_some answered
  exact (tracks.extend bracketsAfter takenAfter samePassed).covers_code isCode

/-- The token that a cue is about is covered. -/
theorem Tracks.follow
    {cue : Cue}
    (tracks : walk.Tracks kinds)
    (claimed : cue.claims kind = true) :
    (walk.follow kind cue).Covers (kinds ++ [kind]) := by
  cases cue with
  | nothing => cases claimed
  | head =>
      obtain rfl : kind = .lParen := eq_of_beq claimed
      exact ⟨_, (List.append_nil _).symm, tracks.extend rfl rfl rfl, trivial⟩
  | tag =>
      obtain rfl : kind = .lParen := eq_of_beq claimed
      exact ⟨_, (List.append_nil _).symm, tracks.extend rfl rfl rfl, trivial⟩
  | tagType =>
      obtain rfl : kind = .keyword .kwEnum := eq_of_beq claimed
      exact ⟨_, (List.append_nil _).symm, tracks.extend rfl rfl rfl, trivial⟩
  | arguments =>
      obtain rfl : kind = .lParen := eq_of_beq claimed
      exact ⟨_, (List.append_nil _).symm, tracks.extend rfl rfl rfl, rfl⟩
  | capture =>
      obtain rfl : kind = .pipe := eq_of_beq claimed
      exact ⟨_, (List.append_nil _).symm, tracks.extend rfl rfl rfl, List.not_mem_nil⟩
  | testName =>
      have proper : (Stretch.testName kind).IsProper := bne_iff_ne.mp claimed
      have passes := tracks.pass proper
      exact ⟨_, (List.append_nil _).symm,
        ⟨passes.complete, passes.taken, passes.proper, passes.balanced⟩, trivial⟩

/-- One more token of arguments changes the number of open parentheses in them. -/
theorem isProper_arguments_concat
    {depth : Nat}
    (proper : (Mode.arguments depth kinds).IsProper)
    (goesOn : ¬(kind = .rParen ∧ depth = 0)) :
    (Mode.arguments (depthAfter depth kind) (kinds ++ [kind])).IsProper := by
  have before : Bracket.afterAll? [] (kinds.filter TokenKind.isParen) = _ := proper
  show Bracket.afterAll? [] ((kinds ++ [kind]).filter TokenKind.isParen) = _
  rw [List.filter_append]
  by_cases opens : kind = .lParen
  · subst opens
    exact (Bracket.afterAll?_concat _ _).trans (by rw [before]; rfl)
  by_cases closes : kind = .rParen
  · subst closes
    obtain ⟨below, rfl⟩ : ∃ below, depth = below + 1 :=
      Nat.exists_eq_succ_of_ne_zero fun isZero => goesOn ⟨rfl, isZero⟩
    exact (Bracket.afterAll?_concat _ _).trans (by rw [before]; rfl)
  · have isNone : kind.isParen = false := by simp [TokenKind.isParen, opens, closes]
    have sameDepth : depthAfter depth kind = depth := by
      unfold depthAfter
      split
      · exact absurd rfl opens
      · exact absurd rfl closes
      · rfl
    rw [List.filter_cons_of_neg (by simp [isNone]), List.filter_nil, List.append_nil, sameDepth]
    exact before

/-- A walk that covers the tokens so far covers one more after a step. -/
theorem Covers.step
    (covers : walk.Covers kinds)
    (answered : walk.step? kind = some next) :
    next.Covers (kinds ++ [kind]) := by
  obtain ⟨before, rfl, tracks, proper⟩ := covers
  unfold step? at answered
  cases mode_eq : walk.mode with
  | code cue =>
      rw [mode_eq] at answered
      rw [Mode.pending, List.append_nil]
      by_cases claimed : cue.claims kind = true
      · simp only [if_pos claimed] at answered
        cases answered
        exact tracks.follow claimed
      · simp only [if_neg claimed] at answered
        exact tracks.take answered
  | arguments depth stretch =>
      rw [mode_eq] at answered proper
      by_cases ends : kind = .rParen ∧ depth = 0
      · simp only [if_pos ends] at answered
        rw [ends.2] at proper
        have stretchProper : (Stretch.arguments stretch).IsProper := proper
        exact (tracks.pass stretchProper).take answered
      · simp only [if_neg ends] at answered
        cases answered
        refine ⟨before, List.append_assoc before stretch [kind], ?_,
          isProper_arguments_concat proper ends⟩
        exact ⟨tracks.complete, tracks.taken, tracks.proper, tracks.balanced⟩
  | capture stretch =>
      rw [mode_eq] at answered proper
      by_cases ends : kind = .pipe
      · simp only [if_pos ends] at answered
        have stretchProper : (Stretch.capture stretch).IsProper := proper
        exact (tracks.pass stretchProper).take answered
      · simp only [if_neg ends] at answered
        cases answered
        refine ⟨before, List.append_assoc before stretch [kind],
          ⟨tracks.complete, tracks.taken, tracks.proper, tracks.balanced⟩, ?_⟩
        intro isIn
        obtain isIn | isIn := List.mem_append.mp isIn
        · exact proper isIn
        · exact ends (List.mem_singleton.mp isIn).symm

/-- A walk that goes on over further tokens covers them, too. -/
theorem Covers.run
    {further : List TokenKind}
    (covers : walk.Covers kinds)
    (answered : further.foldlM step? walk = some next) :
    next.Covers (kinds ++ further) := by
  induction further generalizing walk kinds with
  | nil =>
      cases answered
      rw [List.append_nil]
      exact covers
  | cons kind further inductionHypothesis =>
      obtain ⟨middle, first, later⟩ := Option.bind_eq_some_iff.mp answered
      rw [List.append_cons]
      exact inductionHypothesis (covers.step first) later

theorem start_covers : start.Covers [] :=
  ⟨[], rfl, ⟨.nil, rfl, List.forall_mem_nil _, fun _ => rfl⟩, trivial⟩

/-- A walk that ends in code has tracked all tokens. -/
theorem tracks_of_along?
    {cue : Cue}
    (answered : along? kinds = some walk)
    (isCode : walk.mode = .code cue) :
    walk.Tracks kinds := by
  obtain ⟨before, rfl, tracks, -⟩ := start_covers.run answered
  rw [isCode, Mode.pending, List.append_nil]
  exact tracks

end Walk

end Brackets

end ZigLint
