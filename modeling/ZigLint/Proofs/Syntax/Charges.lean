import ZigLint.Proofs.Syntax.Placement

namespace ZigLint

/-!
# What nodes take of the token list

Every token offers two halves, and every node is charged to one half of its main
token: a node whose main token may also be that of a child takes the first half,
any other node takes the second. `Charged` says that a list of trees takes no half
twice and keeps within bounds. Since a half is taken at most once, a token is the
main token of two nodes at most, and the nodes are at most twice as many as the
tokens.

`Parser.Spends` is what productions have in common: the trees that they build are
charged to the tokens that they read. `Parser.Continues` follows a production
from part to part, until the node around the parts is finished.
-/

namespace NodeForm

/--
A node of this form has a main token that can be that of its first child, too: a function
has the keyword of its prototype, and a nameless parameter or field the start of its type.
-/
def sharesMain : NodeForm → Bool
  | .fnDecl | .paramDecl none | .containerField none => true
  | _ => false

end NodeForm

/-- The half of its main token that the node is charged to. -/
def NodeHead.charge (head : NodeHead) : Nat :=
  if head.form.sharesMain then 2 * head.main.val else 2 * head.main.val + 1

namespace NodeHead

variable {head : NodeHead}

theorem charge_of_sharesMain
    (shares : head.form.sharesMain = true) :
    head.charge = 2 * head.main.val :=
  if_pos shares

theorem charge_of_not_sharesMain
    (alone : head.form.sharesMain = false) :
    head.charge = 2 * head.main.val + 1 := by
  rw [charge, alone]
  rfl

/-- The token that a node is charged to is its main token. -/
theorem charge_div_two : head.charge / 2 = head.main.val := by
  unfold charge
  split <;> omega

end NodeHead

mutual

/-- The heads of all nodes of a tree, children before their parent. -/
def Ast.heads : Ast → List NodeHead
  | .node head children => headsOf children ++ [head]

/-- The heads of all nodes of some children, in order. -/
def headsOf : List (Role × Ast) → List NodeHead
  | [] => []
  | (_, child) :: rest => child.heads ++ headsOf rest

end

theorem headsOf_eq (children : List (Role × Ast)) :
    headsOf children = (children.map Prod.snd).flatMap Ast.heads := by
  induction children with
  | nil => rfl
  | cons child rest inductionHypothesis =>
      rw [headsOf, inductionHypothesis, List.map_cons, List.flatMap_cons]

/-- What the nodes of some trees are charged to. -/
def charges (asts : List Ast) : List Nat :=
  (asts.flatMap Ast.heads).map NodeHead.charge

@[simp]
theorem charges_append (left right : List Ast) :
    charges (left ++ right) = charges left ++ charges right := by
  simp [charges]

theorem charges_node
    (head : NodeHead)
    (children : List (Role × Ast)) :
    charges [.node head children] = charges (children.map Prod.snd) ++ [head.charge] := by
  simp [charges, Ast.heads, headsOf_eq]

/--
No half of a token from `lower` on and before `upper` is taken twice, and none outside is
taken at all. Every `return` starts with its keyword.
-/
structure Charged (lower : Nat) (asts : List Ast) (upper : Nat) : Prop where
  nodup : (charges asts).Nodup
  bounds : ∀ charge ∈ charges asts, lower ≤ charge ∧ charge < upper
  returns : ∀ head ∈ asts.flatMap Ast.heads, head.form = .returnExpr → head.main = head.first

namespace Charged

variable
  {lower middle upper : Nat}
  {left right parts : List Ast}
  {head : NodeHead}
  {children : List (Role × Ast)}

theorem nil : Charged lower [] upper :=
  ⟨.nil, by simp [charges], by simp⟩

theorem widen
    {wideLower wideUpper : Nat}
    (charged : Charged lower left upper)
    (lowerLe : wideLower ≤ lower)
    (upperLe : upper ≤ wideUpper) :
    Charged wideLower left wideUpper := by
  refine ⟨charged.nodup, fun charge member => ?_, charged.returns⟩
  have bounds := charged.bounds charge member
  omega

theorem append
    {rightLower : Nat}
    (leftCharged : Charged lower left middle)
    (rightCharged : Charged rightLower right upper)
    (middleLe : middle ≤ rightLower)
    (lowerLe : lower ≤ rightLower)
    (upperLe : middle ≤ upper) :
    Charged lower (left ++ right) upper := by
  refine ⟨?_, fun charge member => ?_, fun head member => ?_⟩
  · rw [charges_append]
    refine List.nodup_append.mpr ⟨leftCharged.nodup, rightCharged.nodup, ?_⟩
    rintro charge inLeft _ inRight rfl
    have leftBounds := leftCharged.bounds charge inLeft
    have rightBounds := rightCharged.bounds charge inRight
    omega
  · rw [charges_append] at member
    rcases List.mem_append.mp member with inLeft | inRight
    · have bounds := leftCharged.bounds charge inLeft
      omega
    · have bounds := rightCharged.bounds charge inRight
      omega
  · rw [List.flatMap_append] at member
    rcases List.mem_append.mp member with inLeft | inRight
    · exact leftCharged.returns head inLeft
    · exact rightCharged.returns head inRight

/-- A node takes a half that none of its parts takes. -/
theorem node
    (charged : Charged lower parts upper)
    (partsEq : children.map Prod.snd = parts)
    (unused : head.charge ∉ charges parts)
    (lowerLe : lower ≤ head.charge)
    (upperLt : head.charge < upper)
    (starts : head.form = .returnExpr → head.main = head.first) :
    Charged lower [.node head children] upper := by
  subst partsEq
  refine ⟨?_, fun charge member => ?_, fun other member => ?_⟩
  · rw [charges_node]
    refine List.nodup_append.mpr ⟨charged.nodup, List.pairwise_singleton _ _, ?_⟩
    rintro charge inParts _ isOwn rfl
    exact unused (List.mem_singleton.mp isOwn ▸ inParts)
  · rw [charges_node] at member
    rcases List.mem_append.mp member with inParts | isOwn
    · exact charged.bounds charge inParts
    · rw [List.mem_singleton.mp isOwn]
      exact ⟨lowerLe, upperLt⟩
  · simp only [List.flatMap_singleton, Ast.heads, headsOf_eq] at member
    rcases List.mem_append.mp member with inParts | isOwn
    · exact charged.returns other inParts
    · rw [List.mem_singleton.mp isOwn]
      exact starts

/-- A node takes the second half of a token that stands between its parts. -/
theorem between
    (leftCharged : Charged lower left (2 * head.main.val))
    (rightCharged : Charged (2 * head.main.val + 2) right upper)
    (partsEq : children.map Prod.snd = left ++ right)
    (alone : head.form.sharesMain = false)
    (lowerLe : lower ≤ 2 * head.main.val + 1)
    (upperLt : 2 * head.main.val + 1 < upper)
    (starts : head.form = .returnExpr → head.main = head.first) :
    Charged lower [.node head children] upper := by
  have charge_eq := NodeHead.charge_of_not_sharesMain alone
  refine node (leftCharged.append rightCharged (by omega) (by omega) (by omega)) partsEq ?_
    (by omega) (by omega) starts
  rw [charges_append, charge_eq]
  intro member
  rcases List.mem_append.mp member with inLeft | inRight
  · have bounds := leftCharged.bounds _ inLeft
    omega
  · have bounds := rightCharged.bounds _ inRight
    omega

/-- A node that shares its main token takes the first half before all of its parts. -/
theorem shared
    {main : Nat}
    (isMain : head.main.val = main)
    (charged : Charged (2 * main + 1) parts upper)
    (partsEq : children.map Prod.snd = parts)
    (shares : head.form.sharesMain = true)
    (upperLt : 2 * main < upper) :
    Charged (2 * main) [.node head children] upper := by
  subst isMain
  have charge_eq := NodeHead.charge_of_sharesMain shares
  refine node (charged.widen (Nat.le_succ _) (Nat.le_refl _)) partsEq ?_ (by omega) (by omega) ?_
  · rw [charge_eq]
    intro member
    have bounds := charged.bounds _ member
    omega
  · intro isReturn
    rw [isReturn] at shares
    cases shares

/-- A tree takes at least one half. -/
theorem lower_lt_upper
    {ast : Ast}
    (charged : Charged lower (ast :: parts) upper) :
    lower < upper := by
  obtain ⟨head, children⟩ := ast
  have member : head.charge ∈ charges (.node head children :: parts) := by
    simp [charges, Ast.heads]
  have bounds := charged.bounds _ member
  omega

end Charged

namespace Parser

variable {kinds : Array TokenKind}

/-- The trees are charged to tokens from `lower` on that stand before `stop`. -/
structure Spent
    (kinds : Array TokenKind)
    (position lower : Nat)
    (asts : List Ast)
    (stop : Nat) :
    Prop where
  position_le : position ≤ stop
  stop_le_size : stop ≤ kinds.size
  charged : Charged lower asts (2 * stop)

/--
The parser builds trees, listed by `asts`, that are charged to the tokens it reads.

With an edge of one they leave the first half of the first token free, so that a
node around them can share this token.
-/
def Spends
    (kinds : Array TokenKind)
    (edge : Nat)
    (asts : α → List Ast)
    (parser : Parser α) :
    Prop :=
  ∀ position, position ≤ kinds.size →
    Ensures kinds parser position fun value stop =>
      Spent kinds position (2 * position + edge) (asts value) stop

/--
When the trees `before` have been charged from `lower` on, the parser goes on to trees,
listed by `asts`, that are charged from `outcome` on.
-/
def Continues
    (kinds : Array TokenKind)
    (lower : Nat)
    (before : List Ast)
    (outcome : Nat)
    (asts : α → List Ast)
    (parser : Parser α) :
    Prop :=
  ∀ position, lower ≤ 2 * position + 1 → position ≤ kinds.size →
    Charged lower before (2 * position) →
    Ensures kinds parser position fun value stop =>
      Spent kinds position outcome (asts value) stop

theorem Spent.from_earlier
    {earlier position lower wideLower stop : Nat}
    {asts : List Ast}
    (spent : Spent kinds position lower asts stop)
    (earlierLe : earlier ≤ position)
    (lowerLe : wideLower ≤ lower) :
    Spent kinds earlier wideLower asts stop :=
  ⟨Nat.le_trans earlierLe spent.position_le, spent.stop_le_size,
    spent.charged.widen lowerLe (Nat.le_refl _)⟩

namespace Continues

variable
  {lower outcome : Nat}
  {before : List Ast}
  {asts : α → List Ast}
  {partsOf : β → List Ast}
  {parser : Parser β}
  {next : β → Parser α}

theorem pure
    {value : α}
    (same : asts value = before) :
    Continues kinds lower before lower asts (pure value) := by
  intro position _ inside charged
  rw [ensures_pure, same]
  exact ⟨Nat.le_refl position, inside, charged⟩

/-- What starts later also starts at an earlier half. -/
theorem from_half
    {parser : Parser α}
    {wideOutcome : Nat}
    (continues : Continues kinds lower before outcome asts parser)
    (outcomeLe : wideOutcome ≤ outcome) :
    Continues kinds lower before wideOutcome asts parser :=
  fun position lowerLe inside charged =>
    (continues position lowerLe inside charged).mono fun _ _ spent =>
      spent.from_earlier (Nat.le_refl position) outcomeLe

/-- A part is charged behind those that have been charged before it. -/
theorem part
    (spends : Spends kinds 1 partsOf parser)
    (continues :
      ∀ value, Continues kinds lower (before ++ partsOf value) outcome asts (next value)) :
    Continues kinds lower before outcome asts (parser >>= next) := by
  intro position lowerLe inside charged
  refine ensures_bind.mpr ((spends position inside).mono fun value middle spent => ?_)
  have positionLe := spent.position_le
  refine (continues value middle (by omega) spent.stop_le_size ?_).mono fun _ _ outcomeSpent => ?_
  · exact charged.append spent.charged (by omega) lowerLe (by omega)
  · exact outcomeSpent.from_earlier positionLe (Nat.le_refl _)

/-- Behind a main token a part may take both halves of the tokens it reads. -/
theorem wholePart
    {main : Nat}
    (spends : Spends kinds 0 partsOf parser)
    (continues :
      ∀ value, Continues kinds (2 * main) (before ++ partsOf value) outcome asts (next value)) :
    Continues kinds (2 * main) before outcome asts (parser >>= next) := by
  intro position lowerLe inside charged
  refine ensures_bind.mpr ((spends position inside).mono fun value middle spent => ?_)
  have positionLe := spent.position_le
  refine (continues value middle (by omega) spent.stop_le_size ?_).mono fun _ _ outcomeSpent => ?_
  · exact charged.append spent.charged (by omega) (by omega) (by omega)
  · exact outcomeSpent.from_earlier positionLe (Nat.le_refl _)

/-- What is skipped takes nothing. -/
theorem skip
    (skips : Skips kinds parser)
    (continues : ∀ value, Continues kinds lower before outcome asts (next value)) :
    Continues kinds lower before outcome asts (parser >>= next) := by
  intro position lowerLe inside charged
  refine ensures_bind.mpr ((skips position inside).mono fun value middle skipped => ?_)
  have positionLe := skipped.start_le_stop
  refine (continues value middle (by omega) skipped.stop_le_size ?_).mono fun _ _ spent => ?_
  · exact charged.widen (Nat.le_refl _) (by omega)
  · exact spent.from_earlier positionLe (Nat.le_refl _)

/-- The node around the parts takes the second half of its main token, which they stand around. -/
theorem finish_between
    {form : NodeForm}
    {main first : TokenIndex}
    {children : List (Role × Ast)}
    {left right : List Ast}
    (leftCharged : Charged outcome left (2 * main.val))
    (outcomeLe : outcome ≤ 2 * main.val + 1)
    (partsEq : children.map Prod.snd = left ++ right)
    (alone : form.sharesMain = false)
    (starts : form = .returnExpr → main = first) :
    Continues kinds (2 * (main.val + 1)) right outcome (fun ast => [ast])
      (finish form main first children) := by
  intro position mainLt inside charged
  refine ensures_finish.mpr ⟨Nat.le_refl position, inside, ?_⟩
  exact .between leftCharged charged partsEq alone outcomeLe (by simp only; omega) starts

/-- The node around the parts takes the second half of its main token before them. -/
theorem finish
    {form : NodeForm}
    {main first : TokenIndex}
    {children : List (Role × Ast)}
    {parts : List Ast}
    (partsEq : children.map Prod.snd = parts)
    (alone : form.sharesMain = false)
    (starts : form = .returnExpr → main = first) :
    Continues kinds (2 * (main.val + 1)) parts (2 * main.val + 1) (fun ast => [ast])
      (finish form main first children) :=
  finish_between .nil (Nat.le_refl _) partsEq alone starts

/-- The node around the parts shares its main token with the first of them. -/
theorem finish_shared
    {form : NodeForm}
    {main first : TokenIndex}
    {children : List (Role × Ast)}
    {ast : Ast}
    {parts : List Ast}
    (partsEq : children.map Prod.snd = ast :: parts)
    (shares : form.sharesMain = true) :
    Continues kinds (2 * main.val + 1) (ast :: parts) (2 * main.val) (fun ast => [ast])
      (Parser.finish form main first children) := by
  intro position _ inside charged
  have mainLt := Nat.lt_of_succ_lt charged.lower_lt_upper
  exact ensures_finish.mpr
    ⟨Nat.le_refl position, inside, .shared rfl charged partsEq shares mainLt⟩

/-- A finished node is handed on. -/
theorem map
    {change : β → α}
    (continues : Continues kinds lower before outcome partsOf parser)
    (same : ∀ value, asts (change value) = partsOf value) :
    Continues kinds lower before outcome asts
      (parser >>= fun value => Pure.pure (change value)) := by
  intro position lowerLe inside charged
  refine ensures_bind.mpr ((continues position lowerLe inside charged).mono ?_)
  intro value stop spent
  rw [ensures_pure, same]
  exact spent

end Continues

namespace Spends

variable
  {edge : Nat}
  {asts : α → List Ast}
  {partsOf : β → List Ast}
  {parser : Parser β}
  {next : β → Parser α}

theorem pure
    {value : α}
    (nothing : asts value = []) :
    Spends kinds edge asts (pure value) := by
  intro position inside
  rw [ensures_pure, nothing]
  exact ⟨Nat.le_refl position, inside, .nil⟩

theorem mismatch {expectation : Expectation} :
    Spends kinds edge asts (mismatch expectation) :=
  fun _ _ => ensures_mismatch.mpr trivial

/-- What leaves the first half free may also be read where nothing needs it. -/
theorem whole
    {parser : Parser α}
    (spends : Spends kinds 1 asts parser) :
    Spends kinds 0 asts parser :=
  fun position inside => (spends position inside).mono fun _ _ spent =>
    spent.from_earlier (Nat.le_refl position) (Nat.le_succ _)

/-- What is skipped first takes nothing. -/
theorem skip
    (skips : Skips kinds parser)
    (spends : ∀ value, Spends kinds edge asts (next value)) :
    Spends kinds edge asts (parser >>= next) := by
  intro position inside
  refine ensures_bind.mpr ((skips position inside).mono fun value middle skipped => ?_)
  have positionLe := skipped.start_le_stop
  refine (spends value middle skipped.stop_le_size).mono fun _ _ spent => ?_
  exact spent.from_earlier positionLe (by omega)

/-- A production that is followed from part to part, with nothing before it. -/
theorem of_continues
    {parser : Parser α}
    (continues : ∀ lower, Continues kinds lower [] lower asts parser) :
    Spends kinds 1 asts parser :=
  fun position inside => continues _ position (Nat.le_refl _) inside .nil

theorem of_continues_whole
    {parser : Parser α}
    (continues : ∀ start, Continues kinds (2 * start) [] (2 * start) asts parser) :
    Spends kinds 0 asts parser :=
  fun position inside => continues position position (Nat.le_succ _) inside .nil

theorem map
    {parser : Parser α}
    {change : α → β}
    (spends : Spends kinds edge asts parser)
    (same : ∀ value, partsOf (change value) = asts value) :
    Spends kinds edge partsOf (parser >>= fun value => Pure.pure (change value)) := by
  intro position inside
  refine ensures_bind.mpr ((spends position inside).mono fun value stop spent => ?_)
  rw [ensures_pure, same]
  exact spent

/-- A first part leaves a half free that the node around it may take. -/
theorem share
    {parser : Parser Ast}
    {next : Ast → Parser α}
    {token : Ast → TokenIndex}
    (spends : Spends kinds 1 (fun ast => [ast]) parser)
    (starts : ∀ position, Ensures kinds parser position fun ast _ => token ast = ⟨position⟩)
    (continues :
      ∀ ast,
        Continues kinds (2 * (token ast).val + 1) [ast] (2 * (token ast).val) asts (next ast)) :
    Spends kinds 0 asts (parser >>= next) := by
  intro position inside
  refine ensures_bind.mpr fun ast middle run => ?_
  have spent := spends position inside ast middle run
  obtain rfl : (token ast).val = position :=
    congrArg TokenIndex.val (starts position ast middle run)
  have positionLe := spent.position_le
  refine (continues ast middle (by omega) spent.stop_le_size spent.charged).mono ?_
  exact fun _ _ outcomeSpent => outcomeSpent.from_earlier positionLe (Nat.le_refl _)

/-- The half that a production leaves free may be taken by a node that starts with it. -/
theorem here_continues
    {next : TokenIndex → Parser α}
    (continues :
      ∀ start : TokenIndex,
        Continues kinds (2 * start.val + 1) [] (2 * start.val) asts (next start)) :
    Spends kinds 0 asts (here >>= next) :=
  fun position inside =>
    ensures_bind.mpr (ensures_here.mpr
      (continues ⟨position⟩ position (Nat.le_refl _) inside .nil))

/-- An optional part takes nothing where it is missing. -/
theorem after?
    {kind : TokenKind}
    {parser : Parser Ast}
    (spends : Spends kinds edge (fun ast => [ast]) parser) :
    Spends kinds edge Option.toList (after? kind parser) := by
  refine .skip accept_skips fun found => ?_
  cases found with
  | true => exact spends.map fun _ => rfl
  | false => exact .pure rfl

/-- Trees that are collected take what each of them takes. -/
theorem collect
    {round : Parser (ForInStep (List Ast))}
    (spends : Spends kinds edge ForInStep.value round) :
    Spends kinds edge id (collect round) := by
  intro position inside
  refine ensures_collect
    (fun asts stop => Spent kinds position (2 * position + edge) asts stop) ?_
    ⟨Nat.le_refl position, inside, .nil⟩
  intro before middle beforeSpent
  have positionLe := beforeSpent.position_le
  refine (spends middle beforeSpent.stop_le_size).mono fun step stop stepSpent => ?_
  have middleLe := stepSpent.position_le
  refine ⟨Nat.le_trans positionLe middleLe, stepSpent.stop_le_size, ?_⟩
  exact beforeSpent.charged.append stepSpent.charged (by omega) (by omega) (by omega)

end Spends

section Lead

variable
  {position outcome : Nat}
  {asts : α → List Ast}

/-- Behind a token that has been read, nothing has been charged yet. -/
theorem Continues.start
    {parser : Parser α}
    (continues : Continues kinds (2 * (position + 1)) [] outcome asts parser)
    (lt : position < kinds.size) :
    Ensures kinds parser (position + 1) fun value stop =>
      Spent kinds position outcome (asts value) stop :=
  (continues (position + 1) (Nat.le_succ _) lt .nil).mono fun _ _ spent =>
    spent.from_earlier (Nat.le_succ position) (Nat.le_refl _)

/-- The current token is read, and the production goes on behind it. -/
theorem advance_continues
    {next : TokenIndex → Parser α}
    (notEof : kindAt kinds position ≠ .eof)
    (continues : Continues kinds (2 * (position + 1)) [] outcome asts (next ⟨position⟩)) :
    Ensures kinds (advance >>= next) position fun value stop =>
      Spent kinds position outcome (asts value) stop :=
  ensures_bind.mpr (ensures_advance.mpr ⟨fun isEof => (notEof isEof).elim, fun _ lt =>
    continues.start lt⟩)

/-- Two tokens are read, and the production goes on behind them. -/
theorem advance_advance_continues
    {next : TokenIndex → TokenIndex → Parser α}
    (notEof : kindAt kinds position ≠ .eof)
    (notEofNext : kindAt kinds (position + 1) ≠ .eof)
    (continues :
      Continues kinds (2 * (position + 1 + 1)) [] outcome asts
        (next ⟨position⟩ ⟨position + 1⟩)) :
    Ensures kinds (advance >>= fun first => advance >>= fun second => next first second) position
      fun value stop => Spent kinds position outcome (asts value) stop :=
  ensures_bind.mpr (ensures_advance.mpr ⟨fun isEof => (notEof isEof).elim, fun _ _ =>
    (advance_continues notEofNext continues).mono fun _ _ spent =>
      spent.from_earlier (Nat.le_succ position) (Nat.le_refl _)⟩)

/-- The main token is read first. -/
theorem Spends.expect_continues
    {kind : TokenKind}
    {next : TokenIndex → Parser α}
    (notEof : kind ≠ .eof)
    (continues :
      ∀ main : TokenIndex,
        Continues kinds (2 * (main.val + 1)) [] (2 * main.val + 1) asts (next main)) :
    Spends kinds 1 asts (expect kind >>= next) :=
  fun _ _ => ensures_bind.mpr ((ensures_expect notEof).mpr fun _ lt => (continues _).start lt)

/-- The main token is read first, whatever it is, when another token has to follow. -/
theorem Spends.advance_expect_continues
    {kind : TokenKind}
    {next : TokenIndex → TokenIndex → Parser α}
    (notEof : kind ≠ .eof)
    (continues :
      ∀ main index : TokenIndex,
        Continues kinds (2 * (main.val + 1)) [] (2 * main.val + 1) asts (next main index)) :
    Spends kinds 1 asts (advance >>= fun main => expect kind >>= fun index => next main index) := by
  intro position inside
  refine ensures_bind.mpr (ensures_advance.mpr ⟨fun isEof => ?_, fun _ lt => ?_⟩)
  · -- At the end of the file the second token is missing.
    refine ensures_bind.mpr ((ensures_expect notEof).mpr fun atKind _ => ?_)
    exact (notEof (atKind.symm.trans isEof)).elim
  · exact (Continues.skip (expect_skips notEof) (continues ⟨position⟩)).start lt

/-- The main token is read behind the parts before it. -/
theorem Continues.expect_main
    {kind : TokenKind}
    {lower : Nat}
    {before : List Ast}
    {next : TokenIndex → Parser α}
    (notEof : kind ≠ .eof)
    (continues :
      ∀ main : TokenIndex,
        Charged lower before (2 * main.val) →
        lower ≤ 2 * main.val + 1 →
        Continues kinds (2 * (main.val + 1)) [] lower asts (next main)) :
    Continues kinds lower before lower asts (expect kind >>= next) :=
  fun position lowerLe _ charged =>
    ensures_bind.mpr ((ensures_expect notEof).mpr fun _ lt =>
      (continues ⟨position⟩ charged lowerLe).start lt)

/-- The main token is read behind the parts before it, if it is there. -/
theorem Continues.accept?_main
    {kind : TokenKind}
    {lower : Nat}
    {before : List Ast}
    {next : Option TokenIndex → Parser α}
    (notEof : kind ≠ .eof)
    (found :
      ∀ main : TokenIndex,
        Charged lower before (2 * main.val) →
        lower ≤ 2 * main.val + 1 →
        Continues kinds (2 * (main.val + 1)) [] lower asts (next (some main)))
    (missing : Continues kinds lower before lower asts (next none)) :
    Continues kinds lower before lower asts (accept? kind >>= next) :=
  fun position lowerLe inside charged =>
    ensures_bind.mpr ((ensures_accept? notEof).mpr
      ⟨fun _ lt => (found ⟨position⟩ charged lowerLe).start lt,
        fun _ => missing position lowerLe inside charged⟩)

/-- The main token is read first, if it is there. -/
theorem Spends.accept?_continues
    {kind : TokenKind}
    {edge : Nat}
    {next : Option TokenIndex → Parser α}
    (notEof : kind ≠ .eof)
    (edgeLe : edge ≤ 1)
    (found :
      ∀ main : TokenIndex,
        Continues kinds (2 * (main.val + 1)) [] (2 * main.val + 1) asts (next (some main)))
    (missing : Spends kinds edge asts (next none)) :
    Spends kinds edge asts (accept? kind >>= next) := by
  intro position inside
  refine ensures_bind.mpr ((ensures_accept? notEof).mpr ⟨fun _ lt => ?_, fun _ => ?_⟩)
  · refine ((found ⟨position⟩).start lt).mono fun _ _ spent => ?_
    exact spent.from_earlier (Nat.le_refl position) (Nat.add_le_add_left edgeLe _)
  · exact missing position inside

end Lead

theorem accept?_skips {kind : TokenKind} : Skips kinds (accept? kind) := by
  refine .skip_bind isAt_skips fun found => ?_
  cases found with
  | true => exact .skip_bind advance_skips fun _ => .pure rfl
  | false => exact .pure rfl

theorem here_skips : Skips kinds here :=
  fun position inside => ensures_here.mpr (.nothing (Nat.le_refl position) inside)

end Parser

end ZigLint
