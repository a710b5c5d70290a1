import ZigLint.Proofs.Parser.Ensures
import ZigLint.Proofs.Token.Brackets

namespace ZigLint.Parser

/-!
# Brackets in front of a position

The walk over the tokens in front of a position tells which brackets are open
there and how the next token is taken. Its steps are followed through the
stretches that a parser passes over: after the right cue, a capture and the
arguments of a modifier end for the walk where they end for the parser.
-/

open Brackets

variable {kinds : Array TokenKind} {position : Nat} {opened : List Opened}

/-- The walk over the tokens in front of a position. -/
def walkTo? (kinds : Array TokenKind) (position : Nat) : Option Walk :=
  Walk.along? (kinds.toList.take position)

/-- In front of a position the given brackets are open and the walk is in the given mode. -/
def Reaches
    (kinds : Array TokenKind)
    (position : Nat)
    (opened : List Opened)
    (mode : Mode) :
    Prop :=
  ∃ walk, walkTo? kinds position = some walk ∧ walk.opened = opened ∧ walk.mode = mode

/-- In front of a position the given brackets are open, and the token there is taken as code. -/
def Stands
    (kinds : Array TokenKind)
    (position : Nat)
    (opened : List Opened) :
    Prop :=
  ∃ cue, Reaches kinds position opened (.code cue) ∧ cue.claims (kindAt kinds position) = false

/-- A token that is no bracket and says nothing about the next one; the end of file is none. -/
def isOrdinary (kind : TokenKind) : Bool :=
  kind.opens?.isNone && kind.closes?.isNone && Cue.after kind == .nothing && kind != .eof

section Steps

theorem walkTo?_succ (lt : position < kinds.size) :
    walkTo? kinds (position + 1) =
      (walkTo? kinds position).bind fun walk => walk.step? (kindAt kinds position) := by
  have next : kinds.toList[position]? = some (kindAt kinds position) := by
    rw [Array.getElem?_toList, kindAt, Array.getD_eq_getD_getElem?, Array.getElem?_eq_getElem lt]
    rfl
  rw [walkTo?, Walk.along?, List.take_add_one, next, List.foldlM_append]
  exact congrArg _ (funext fun walk => bind_pure _)

/-- One token further, if the walk takes it. -/
theorem Reaches.step
    {mode next : Mode}
    {later : List Opened}
    (reaches : Reaches kinds position opened mode)
    (lt : position < kinds.size)
    (steps :
      ∀ walk : Walk, walk.opened = opened → walk.mode = mode →
        ∃ stepped, walk.step? (kindAt kinds position) = some stepped ∧
          stepped.opened = later ∧ stepped.mode = next) :
    Reaches kinds (position + 1) later next := by
  obtain ⟨walk, walked, opened_eq, mode_eq⟩ := reaches
  obtain ⟨stepped, step_eq, facts⟩ := steps walk opened_eq mode_eq
  refine ⟨stepped, ?_, facts⟩
  rw [walkTo?_succ lt, walked]
  exact step_eq

/-- A token that no cue is about is taken as code. -/
theorem Stands.take
    {next : Mode}
    {later : List Opened}
    (stands : Stands kinds position opened)
    (lt : position < kinds.size)
    (takes :
      ∀ walk : Walk, walk.opened = opened →
        ∃ taken, walk.take? (kindAt kinds position) = some taken ∧
          taken.opened = later ∧ taken.mode = next) :
    Reaches kinds (position + 1) later next := by
  obtain ⟨cue, reaches, unclaimed⟩ := stands
  refine reaches.step lt fun walk opened_eq mode_eq => ?_
  obtain ⟨taken, taken_eq, facts⟩ := takes walk opened_eq
  refine ⟨taken, ?_, facts⟩
  rw [Walk.step?, mode_eq]
  simpa only [unclaimed, Bool.false_eq_true, if_false] using taken_eq

/-- After a cue that is not about the token there, the token is taken as code. -/
theorem Reaches.stands
    {cue : Cue}
    (reaches : Reaches kinds position opened (.code cue))
    (unclaimed : cue.claims (kindAt kinds position) = false) :
    Stands kinds position opened :=
  ⟨cue, reaches, unclaimed⟩

/-- A token that is no bracket leaves its cue. -/
theorem Stands.plain
    (stands : Stands kinds position opened)
    (lt : position < kinds.size)
    (noOpening : (kindAt kinds position).opens? = none)
    (noClosing : (kindAt kinds position).closes? = none) :
    Reaches kinds (position + 1) opened (.code (Cue.after (kindAt kinds position))) := by
  refine stands.take lt fun walk opened_eq => ?_
  simp only [Walk.take?, noOpening, noClosing]
  exact ⟨_, rfl, opened_eq, rfl⟩

theorem Stands.ordinary
    (stands : Stands kinds position opened)
    (lt : position < kinds.size)
    (ordinary : isOrdinary (kindAt kinds position) = true) :
    Stands kinds (position + 1) opened := by
  simp only [isOrdinary, Bool.and_eq_true, Option.isNone_iff_eq_none, beq_iff_eq] at ordinary
  obtain ⟨⟨⟨noOpening, noClosing⟩, noCue⟩, -⟩ := ordinary
  have reaches := stands.plain lt noOpening noClosing
  rw [noCue] at reaches
  exact reaches.stands rfl

theorem Stands.opens
    {bracket : Bracket}
    (stands : Stands kinds position opened)
    (lt : position < kinds.size)
    (opening : (kindAt kinds position).opens? = some bracket) :
    Stands kinds (position + 1) (.other bracket :: opened) := by
  have reaches : Reaches kinds (position + 1) (.other bracket :: opened) (.code .nothing) := by
    refine stands.take lt fun walk opened_eq => ?_
    simp only [Walk.take?, opening]
    exact ⟨_, rfl, by rw [opened_eq], rfl⟩
  exact reaches.stands rfl

theorem opens?_of_closes?
    {kind : TokenKind}
    {bracket : Bracket}
    (closing : kind.closes? = some bracket) :
    kind.opens? = none := by
  unfold TokenKind.closes? at closing
  split at closing
  case h_4 => cases closing
  all_goals rfl

theorem Stands.closes
    {innermost : Opened}
    (stands : Stands kinds position (innermost :: opened))
    (lt : position < kinds.size)
    (closing : (kindAt kinds position).closes? = some innermost.bracket) :
    Reaches kinds (position + 1) opened (.code innermost.cue) := by
  have noOpening := opens?_of_closes? closing
  refine stands.take lt fun walk opened_eq => ?_
  simp only [Walk.take?, noOpening, closing, opened_eq, if_true]
  exact ⟨_, rfl, rfl, rfl⟩

/-- A token with something to say about the next one is no bracket. -/
theorem no_bracket_of_after
    {kind : TokenKind}
    (something : Cue.after kind ≠ .nothing) :
    kind.opens? = none ∧ kind.closes? = none := by
  unfold Cue.after at something
  split at something
  case h_18 => exact absurd rfl something
  all_goals exact ⟨rfl, rfl⟩

theorem Stands.leaves
    {cue : Cue}
    (stands : Stands kinds position opened)
    (lt : position < kinds.size)
    (announces : Cue.after (kindAt kinds position) = cue)
    (something : cue ≠ .nothing) :
    Reaches kinds (position + 1) opened (.code cue) := by
  subst announces
  obtain ⟨noOpening, noClosing⟩ := no_bracket_of_after something
  exact stands.plain lt noOpening noClosing

/-- The token that a cue is about is taken as the cue says. -/
theorem Reaches.follow
    {cue : Cue}
    (reaches : Reaches kinds position opened (.code cue))
    (lt : position < kinds.size)
    (claimed : cue.claims (kindAt kinds position) = true) :
    Reaches kinds (position + 1) (cue.openedAfter opened) cue.modeAfter := by
  refine reaches.step lt fun walk opened_eq mode_eq => ?_
  refine ⟨walk.follow (kindAt kinds position) cue, ?_, ?_, Walk.mode_follow cue⟩
  · rw [Walk.step?, mode_eq]
    simp only [claimed, if_true]
  · rw [Walk.opened_follow, opened_eq]

end Steps

section Skipping

/-- Inside of a capture every token but a bar is passed over. -/
theorem Reaches.inCapture
    {passed : List TokenKind}
    (reaches : Reaches kinds position opened (.capture passed))
    (lt : position < kinds.size)
    (noBar : kindAt kinds position ≠ .pipe) :
    Reaches kinds (position + 1) opened (.capture (passed ++ [kindAt kinds position])) := by
  refine reaches.step lt fun walk opened_eq mode_eq => ?_
  rw [Walk.step?, mode_eq]
  simp only [if_neg noBar]
  exact ⟨_, rfl, opened_eq, rfl⟩

theorem Reaches.endCapture
    {passed : List TokenKind}
    (reaches : Reaches kinds position opened (.capture passed))
    (lt : position < kinds.size)
    (atBar : kindAt kinds position = .pipe) :
    Stands kinds (position + 1) opened := by
  have ended : Reaches kinds (position + 1) opened (.code .nothing) := by
    refine reaches.step lt fun walk opened_eq mode_eq => ?_
    rw [Walk.step?, mode_eq, atBar]
    exact ⟨_, rfl, opened_eq, rfl⟩
  exact ended.stands rfl

/-- A capture is passed over up to its second bar. -/
theorem skipCapture_ends
    (reaches : Reaches kinds position opened (.code .capture)) :
    Ensures kinds skipCapture position fun _ stop => Stands kinds stop opened := by
  unfold skipCapture
  simp only [ensures_bind]
  refine (ensures_accept (by decide)).mpr ⟨fun atBar lt => ?_, fun noBar => ?_⟩
  · have entered : Reaches kinds (position + 1) opened (.capture []) :=
      reaches.follow lt (by rw [atBar]; rfl)
    refine ensures_iterate_until
      (fun _ place => ∃ passed, Reaches kinds place opened (.capture passed))
      (fun _ stop => Stands kinds stop opened) ?_ ⟨[], entered⟩
    rintro _ place ⟨passed, inside⟩
    simp only [ensures_bind]
    refine (ensures_accept (by decide)).mpr ⟨fun atBar lt => ?_, fun noBar => ?_⟩
    · exact ensures_pure.mpr (ensures_pure.mpr (inside.endCapture lt atBar))
    · simp only [Bool.false_eq_true, if_false, ensures_bind, ensures_isAt, beq_iff_eq,
        ensures_ite, ensures_mismatch, ensures_pure, implies_true, true_and]
      intro notEof
      refine ensures_advance.mpr ⟨fun isEof => (notEof isEof).elim, fun _ lt => ?_⟩
      have goesOn := inside.inCapture lt noBar
      exact ⟨fun _ => ⟨⟨_, goesOn⟩, Nat.lt_succ_self place, lt⟩, fun ends => (ends trivial).elim⟩
  · exact ensures_pure.mpr (reaches.stands (by simpa [Cue.claims] using noBar))

/-- Inside of arguments every token is passed over but the last parenthesis. -/
theorem Reaches.inArguments
    {depth : Nat}
    {passed : List TokenKind}
    (reaches : Reaches kinds position opened (.arguments depth passed))
    (lt : position < kinds.size)
    (goesOn : ¬(kindAt kinds position = .rParen ∧ depth = 0)) :
    Reaches kinds (position + 1) opened
      (.arguments (Walk.depthAfter depth (kindAt kinds position))
        (passed ++ [kindAt kinds position])) := by
  refine reaches.step lt fun walk opened_eq mode_eq => ?_
  rw [Walk.step?, mode_eq]
  simp only [if_neg goesOn]
  exact ⟨_, rfl, opened_eq, rfl⟩

theorem Reaches.endArguments
    {passed : List TokenKind}
    (reaches : Reaches kinds position (.other .paren :: opened) (.arguments 0 passed))
    (lt : position < kinds.size)
    (atParen : kindAt kinds position = .rParen) :
    Stands kinds (position + 1) opened := by
  have ended : Reaches kinds (position + 1) opened (.code .nothing) := by
    refine reaches.step lt fun walk opened_eq mode_eq => ?_
    rw [Walk.step?, mode_eq, atParen]
    simp only [and_self, if_true, Walk.pass, Walk.take?, opened_eq]
    exact ⟨_, rfl, rfl, rfl⟩
  exact ended.stands rfl

/-- Arguments are passed over up to the parenthesis that closes their first one. -/
theorem skipParens_ends
    (reaches : Reaches kinds position opened (.code .arguments)) :
    Ensures kinds skipParens position fun _ stop => Stands kinds stop opened := by
  unfold skipParens
  simp only [ensures_bind, ensures_pure]
  refine (ensures_expect (by decide)).mpr fun atParen lt => ?_
  have entered : Reaches kinds (position + 1) (.other .paren :: opened) (.arguments 0 []) :=
    reaches.follow lt (by rw [atParen]; rfl)
  -- The parser counts the first parenthesis, too.
  refine ensures_iterate_until
    (fun count place =>
      ∃ depth passed, count = depth + 1 ∧
        Reaches kinds place (.other .paren :: opened) (.arguments depth passed))
    (fun _ stop => Stands kinds stop opened) ?_ ⟨0, [], rfl, entered⟩
  rintro _ place ⟨depth, passed, rfl, inside⟩
  simp only [ensures_bind, ensures_current]
  split
  case h_1 atOpening =>
      simp only [ensures_bind, ensures_pure]
      refine ensures_advance.mpr ⟨fun isEof => by simp_all, fun _ lt => ?_⟩
      have goesOn := inside.inArguments lt fun closes => by
        rw [atOpening] at closes
        cases closes.1
      rw [atOpening] at goesOn
      exact ⟨⟨depth + 1, _, rfl, goesOn⟩, Nat.lt_succ_self place, lt⟩
  case h_2 atClosing =>
      simp only [ensures_bind, ensures_pure]
      refine ensures_advance.mpr ⟨fun isEof => by simp_all, fun _ lt => ?_⟩
      cases depth with
      | zero => exact inside.endArguments lt atClosing
      | succ depth =>
          have goesOn := inside.inArguments lt (by rintro ⟨-, isZero⟩; cases isZero)
          rw [atClosing] at goesOn
          exact ⟨⟨depth, _, rfl, goesOn⟩, Nat.lt_succ_self place, lt⟩
  case h_3 =>
      rw [ensures_mismatch]
      trivial
  case h_4 noOpening noClosing notEof =>
      simp only [ensures_bind, ensures_pure]
      refine ensures_advance.mpr ⟨fun isEof => (notEof isEof).elim, fun _ lt => ?_⟩
      have goesOn := inside.inArguments lt fun closes => noClosing closes.1
      have sameDepth : Walk.depthAfter depth (kindAt kinds place) = depth := by
        unfold Walk.depthAfter
        split <;> simp_all
      rw [sameDepth] at goesOn
      exact ⟨⟨depth, _, rfl, goesOn⟩, Nat.lt_succ_self place, lt⟩

end Skipping

end ZigLint.Parser
