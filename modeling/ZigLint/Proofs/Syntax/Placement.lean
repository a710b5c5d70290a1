import ZigLint.Proofs.Parser.Ensures

namespace ZigLint

open Parser (kindAt)

/-!
# Where nodes stand in the token list

A node covers the tokens from its first to its last one. `Ast.InRow` says that a
list of nodes stands in order between two positions, and `Ast.Framed` that every
node of a tree encloses its main token and its children in that way. A declared
name stands before all children of its node, and never right after a point. The
keyword of a container stands before its members, and an identifier is a node of
one token without children.

`Parser.Reads` is the outcome that productions have in common: the nodes that
they build stand in order among the tokens that they read.
-/

namespace NodeForm

/-- The token that names what a node declares; the name of a function is in its prototype. -/
def name? : NodeForm → Option TokenIndex
  | .varDecl head => some head.name
  | .containerField name => name
  | .fnProto head => head.name
  | _ => none

/--
A node of this form has a token to itself: it declares a name, opens a container or is an
identifier.
-/
def hasOwnToken : NodeForm → Bool
  | .identifier | .containerDecl _ => true
  | form => form.name?.isSome

theorem name?_of_hasOwnToken
    {form : NodeForm}
    (noOwnToken : form.hasOwnToken = false) :
    form.name? = none ∧ form ≠ .identifier ∧ ∀ kind, form ≠ .containerDecl kind := by
  cases form with
  | identifier | containerDecl => cases noOwnToken
  | _ => exact ⟨by simpa [hasOwnToken] using noOwnToken, nofun, nofun⟩

end NodeForm

namespace TokenKind

/-- The kinds of token after which a declared name may stand. -/
def leadsName : TokenKind → Bool
  | .keyword _ | .lBrace | .rBrace | .comma | .semicolon => true
  | _ => false

end TokenKind

/-- A name may stand at the position: at the very start or after a fitting token. -/
def NameMayStart (kinds : Array TokenKind) (position : Nat) : Prop :=
  position = 0 ∨ (kindAt kinds (position - 1)).leadsName = true

theorem nameMayStart_succ
    {kinds : Array TokenKind}
    {position : Nat}
    (leads : (kindAt kinds position).leadsName = true) :
    NameMayStart kinds (position + 1) :=
  .inr leads

namespace Ast

/-- The nodes cover disjoint token ranges, in order, from `start` on and before `stop`. -/
def InRow : (start : Nat) → List Ast → (stop : Nat) → Prop
  | start, [], stop => start ≤ stop
  | start, ast :: rest, stop =>
      start ≤ ast.head.first.val ∧
        ast.head.first.val ≤ ast.head.last.val ∧
          InRow (ast.head.last.val + 1) rest stop

namespace InRow

variable {start middle stop : Nat} {left right : List Ast}

theorem start_le_stop
    (inRow : InRow start left stop) :
    start ≤ stop := by
  induction left generalizing start with
  | nil => exact inRow
  | cons ast rest inductionHypothesis =>
      obtain ⟨startLe, firstLe, restInRow⟩ := inRow
      have := inductionHypothesis restInRow
      omega

theorem widen
    {wideStart wideStop : Nat}
    (inRow : InRow start left stop)
    (startLe : wideStart ≤ start)
    (stopLe : stop ≤ wideStop) :
    InRow wideStart left wideStop := by
  induction left generalizing start wideStart with
  | nil =>
      have : start ≤ stop := inRow
      exact Nat.le_trans startLe (Nat.le_trans this stopLe)
  | cons ast rest inductionHypothesis =>
      obtain ⟨startLeFirst, firstLe, restInRow⟩ := inRow
      exact ⟨Nat.le_trans startLe startLeFirst, firstLe,
        inductionHypothesis restInRow (Nat.le_refl _)⟩

theorem append
    {rightStart : Nat}
    (leftInRow : InRow start left middle)
    (rightInRow : InRow rightStart right stop)
    (middleLe : middle ≤ rightStart) :
    InRow start (left ++ right) stop := by
  induction left generalizing start with
  | nil => exact rightInRow.widen (Nat.le_trans leftInRow middleLe) (Nat.le_refl stop)
  | cons ast rest inductionHypothesis =>
      obtain ⟨startLeFirst, firstLe, restInRow⟩ := leftInRow
      exact ⟨startLeFirst, firstLe, inductionHypothesis restInRow⟩

theorem mem
    {ast : Ast}
    (inRow : InRow start left stop)
    (member : ast ∈ left) :
    start ≤ ast.head.first.val ∧
      ast.head.first.val ≤ ast.head.last.val ∧
        ast.head.last.val < stop := by
  induction left generalizing start with
  | nil => simp at member
  | cons head rest inductionHypothesis =>
      obtain ⟨startLeFirst, firstLe, restInRow⟩ := inRow
      rcases List.mem_cons.mp member with isHead | inRest
      · subst isHead
        exact ⟨startLeFirst, firstLe, restInRow.start_le_stop⟩
      · have := inductionHypothesis restInRow inRest
        omega

/-- An earlier node of a row ends before a later one starts. -/
theorem pairwise
    (inRow : InRow start left stop) :
    left.Pairwise fun earlier later =>
      earlier.head.last.val < later.head.first.val := by
  induction left generalizing start with
  | nil => exact .nil
  | cons ast rest inductionHypothesis =>
      obtain ⟨_, _, restInRow⟩ := inRow
      refine .cons (fun later member => ?_) (inductionHypothesis restInRow)
      exact (restInRow.mem member).1

end InRow

/-- A declared name is an identifier in the range of its node and before all its children. -/
structure DeclaresAt
    (kinds : Array TokenKind)
    (head : NodeHead)
    (children : List Ast)
    (name : TokenIndex) :
    Prop where
  isIdentifier : kindAt kinds name.val = .identifier
  mayStart : NameMayStart kinds name.val
  first_le_name : head.first.val ≤ name.val
  children_after : InRow (name.val + 1) children (head.last.val + 1)

/-- The head encloses its main token and its children within the token list. -/
structure Encloses
    (kinds : Array TokenKind)
    (head : NodeHead)
    (children : List Ast) :
    Prop where
  first_le_main : head.first.val ≤ head.main.val
  main_le_last : head.main.val ≤ head.last.val
  last_lt_size : head.last.val < kinds.size
  children_inRow : InRow head.first.val children (head.last.val + 1)
  declares : ∀ name, head.form.name? = some name → DeclaresAt kinds head children name
  leaf : head.form = .identifier → head.first = head.main ∧ head.last = head.main ∧ children = []
  opens :
    ∀ kind, head.form = .containerDecl kind →
      InRow (head.main.val + 1) children (head.last.val + 1)

/-- Every node of the tree encloses its main token and its children. -/
inductive Framed (kinds : Array TokenKind) : Ast → Prop where
  | node
      {head : NodeHead}
      {children : List (Role × Ast)} :
      Encloses kinds head (children.map Prod.snd) →
      (∀ child ∈ children, Framed kinds child.2) →
      Framed kinds (.node head children)

end Ast

namespace Parser

variable {kinds : Array TokenKind}

/-- The nodes stand in order among the tokens read from `start` to `stop`. -/
structure Reads
    (kinds : Array TokenKind)
    (start : Nat)
    (asts : List Ast)
    (stop : Nat) :
    Prop where
  inRow : Ast.InRow start asts stop
  stop_le_size : stop ≤ kinds.size
  framed : ∀ ast ∈ asts, ast.Framed kinds

namespace Reads

variable {start middle stop : Nat} {left right : List Ast} {ast : Ast}

theorem nothing
    (startLe : start ≤ stop)
    (inside : stop ≤ kinds.size) :
    Reads kinds start [] stop :=
  ⟨startLe, inside, by simp⟩

theorem start_le_stop
    (reads : Reads kinds start left stop) :
    start ≤ stop :=
  reads.inRow.start_le_stop

/-- A parser that builds a node has read a token. -/
theorem start_lt_stop
    (reads : Reads kinds start [ast] stop) :
    start < stop := by
  have := reads.inRow.mem (List.mem_singleton.mpr rfl)
  omega

/-- The main token of a node that is read lies among the tokens read. -/
theorem main_bounds
    (reads : Reads kinds start [ast] stop) :
    start ≤ ast.head.main.val ∧ ast.head.main.val < stop := by
  obtain ⟨startLe, -, lastLt⟩ := reads.inRow
  have lastLt : ast.head.last.val + 1 ≤ stop := lastLt
  cases reads.framed ast (List.mem_singleton.mpr rfl) with
  | node encloses _ =>
      have firstLeMain := encloses.first_le_main
      have mainLeLast := encloses.main_le_last
      exact ⟨Nat.le_trans startLe firstLeMain, Nat.lt_of_le_of_lt mainLeLast lastLt⟩

theorem widen
    {wideStart wideStop : Nat}
    (reads : Reads kinds start left stop)
    (startLe : wideStart ≤ start)
    (stopLe : stop ≤ wideStop)
    (inside : wideStop ≤ kinds.size) :
    Reads kinds wideStart left wideStop :=
  ⟨reads.inRow.widen startLe stopLe, inside, reads.framed⟩

theorem from_earlier
    {wideStart : Nat}
    (reads : Reads kinds start left stop)
    (startLe : wideStart ≤ start) :
    Reads kinds wideStart left stop :=
  reads.widen startLe (Nat.le_refl stop) reads.stop_le_size

theorem append
    {rightStart : Nat}
    (leftReads : Reads kinds start left middle)
    (rightReads : Reads kinds rightStart right stop)
    (middleLe : middle ≤ rightStart) :
    Reads kinds start (left ++ right) stop := by
  refine ⟨leftReads.inRow.append rightReads.inRow middleLe, rightReads.stop_le_size, ?_⟩
  intro ast member
  rcases List.mem_append.mp member with inLeft | inRight
  · exact leftReads.framed ast inLeft
  · exact rightReads.framed ast inRight

end Reads

@[simp]
theorem map_snd_childIn
    (role : Role)
    (ast? : Option Ast) :
    (childIn role ast?).map Prod.snd = ast?.toList := by
  cases ast? <;> rfl

@[simp]
theorem map_snd_childrenIn
    (role : Role)
    (asts : List Ast) :
    (childrenIn role asts).map Prod.snd = asts := by
  rw [childrenIn, List.map_map]
  exact List.map_id asts

namespace Reads

variable
  {form : NodeForm}
  {main start : TokenIndex}
  {children : List (Role × Ast)}
  {parts : List Ast}
  {position : Nat}

/-- A node that encloses its children and is finished after its main token is read whole. -/
theorem of_encloses
    (startLt : start.val < position)
    (partsRead : Reads kinds start.val parts position)
    (partsEq : children.map Prod.snd = parts)
    (encloses : Ast.Encloses kinds { form, main, first := start, last := ⟨position - 1⟩ } parts) :
    Reads kinds start.val
      [.node { form, main, first := start, last := ⟨max (position - 1) start.val⟩ } children]
      position := by
  have lastEq : max (position - 1) start.val = position - 1 := by omega
  rw [lastEq]
  refine ⟨⟨Nat.le_refl _, ?_, ?_⟩, partsRead.stop_le_size, ?_⟩
  · show start.val ≤ position - 1
    omega
  · show position - 1 + 1 ≤ position
    omega
  · intro ast member
    obtain rfl := List.mem_singleton.mp member
    refine .node (partsEq ▸ encloses) fun child childMember => ?_
    exact partsRead.framed child.2 (partsEq ▸ List.mem_map_of_mem childMember)

/-- A node without a token of its own is read whole. -/
theorem of_finish
    (startLe : start.val ≤ main.val)
    (mainLt : main.val < position)
    (partsRead : Reads kinds start.val parts position)
    (partsEq : children.map Prod.snd = parts)
    (noOwnToken : form.hasOwnToken = false) :
    Reads kinds start.val
      [.node { form, main, first := start, last := ⟨max (position - 1) start.val⟩ } children]
      position := by
  have inside := partsRead.stop_le_size
  obtain ⟨nameless, notIdentifier, noContainer⟩ := NodeForm.name?_of_hasOwnToken noOwnToken
  refine of_encloses (by omega) partsRead partsEq ⟨startLe, ?_, ?_, ?_, ?_, ?_, ?_⟩
  · show main.val ≤ position - 1
    omega
  · show position - 1 < kinds.size
    omega
  · exact partsRead.inRow.widen (Nat.le_refl _) (by show position ≤ position - 1 + 1; omega)
  · intro name named
    rw [nameless] at named
    cases named
  · exact fun isIdentifier => (notIdentifier isIdentifier).elim
  · exact fun kind isContainer => (noContainer kind isContainer).elim

/-- An identifier is read whole. -/
theorem of_identifier
    {position : Nat}
    (inside : position < kinds.size) :
    Reads kinds position
      [.node ⟨.identifier, ⟨position⟩, ⟨position⟩, ⟨max (position + 1 - 1) position⟩⟩ []]
      (position + 1) :=
  of_encloses (Nat.lt_succ_self position)
    (.nothing (Nat.le_succ position) inside) rfl
    ⟨Nat.le_refl position, Nat.le_refl position, inside, Nat.le_succ position, nofun,
      fun _ => ⟨rfl, rfl, rfl⟩, nofun⟩

/-- A node that declares a name before its children is read whole. -/
theorem of_finish_named
    {name : TokenIndex}
    (startLe : start.val ≤ main.val)
    (mainLe : main.val ≤ name.val)
    (isIdentifier : kindAt kinds name.val = .identifier)
    (mayStart : NameMayStart kinds name.val)
    (partsRead : Reads kinds (name.val + 1) parts position)
    (partsEq : children.map Prod.snd = parts)
    (named : form.name? = some name) :
    Reads kinds start.val
      [.node { form, main, first := start, last := ⟨max (position - 1) start.val⟩ } children]
      position := by
  have inside := partsRead.stop_le_size
  have nameLt := partsRead.start_le_stop
  have stopLe : position ≤ position - 1 + 1 := by omega
  refine of_encloses (by omega) (partsRead.from_earlier (by omega)) partsEq
    ⟨startLe, ?_, ?_, ?_, ?_, ?_, ?_⟩
  · show main.val ≤ position - 1
    omega
  · show position - 1 < kinds.size
    omega
  · exact partsRead.inRow.widen (by show start.val ≤ name.val + 1; omega) stopLe
  · intro name' named'
    obtain rfl : name = name' := Option.some.inj (named.symm.trans named')
    exact ⟨isIdentifier, mayStart, by show start.val ≤ name.val; omega,
      partsRead.inRow.widen (Nat.le_refl _) stopLe⟩
  · rintro rfl
    cases named
  · rintro kind rfl
    cases named

/-- A container is read whole when its tag and its members are read after its keyword. -/
theorem of_finish_container
    {kind : ContainerKind}
    (startLe : start.val ≤ main.val)
    (partsRead : Reads kinds (main.val + 1) parts position)
    (partsEq : children.map Prod.snd = parts) :
    Reads kinds start.val
      [.node
        {
          form := .containerDecl kind
          main
          first := start
          last := ⟨max (position - 1) start.val⟩
        }
        children]
      position := by
  have inside := partsRead.stop_le_size
  have mainLt := partsRead.start_le_stop
  have stopLe : position ≤ position - 1 + 1 := by omega
  refine of_encloses (by omega) (partsRead.from_earlier (by omega)) partsEq
    ⟨startLe, ?_, ?_, ?_, nofun, nofun, fun _ _ => ?_⟩
  · show main.val ≤ position - 1
    omega
  · show position - 1 < kinds.size
    omega
  · exact partsRead.inRow.widen (by show start.val ≤ main.val + 1; omega) stopLe
  · exact partsRead.inRow.widen (Nat.le_refl _) stopLe

end Reads

/-- The parser builds nodes, listed by `asts`, that stand in order among the tokens it reads. -/
def Yields
    (kinds : Array TokenKind)
    (asts : α → List Ast)
    (parser : Parser α) :
    Prop :=
  ∀ position, position ≤ kinds.size →
    Ensures kinds parser position fun value stop =>
      Reads kinds position (asts value) stop

/-- The parser reads tokens and builds no node. -/
def Skips (kinds : Array TokenKind) (parser : Parser α) : Prop :=
  Yields kinds (fun _ => []) parser

namespace Yields

variable {asts : α → List Ast}

theorem pure
    {value : α}
    (nothing : asts value = []) :
    Yields kinds asts (pure value) := by
  intro position inside
  rw [ensures_pure, nothing]
  exact .nothing (Nat.le_refl position) inside

theorem mismatch
    {expectation : Expectation} :
    Yields kinds asts (mismatch expectation) := by
  intro position _
  rw [ensures_mismatch]
  trivial

/-- What is skipped first does not disturb the nodes that are built after it. -/
theorem skip_bind
    {parser : Parser β}
    {next : β → Parser α}
    (skips : Skips kinds parser)
    (yields : ∀ value, Yields kinds asts (next value)) :
    Yields kinds asts (parser >>= next) := by
  intro position inside
  rw [ensures_bind]
  refine (skips position inside).mono fun value middle skipped => ?_
  refine (yields value middle skipped.stop_le_size).mono fun value' stop reads => ?_
  exact reads.from_earlier skipped.start_le_stop

end Yields

/-!
The primitives read at most one token.
-/

theorem peek_skips {ahead : Nat} : Skips kinds (peek ahead) := by
  intro position inside
  rw [ensures_peek]
  exact .nothing (Nat.le_refl position) inside

theorem current_skips : Skips kinds current :=
  peek_skips

theorem previous_skips : Skips kinds previous := by
  intro position inside
  rw [ensures_previous]
  exact .nothing (Nat.le_refl position) inside

theorem isAt_skips {kind : TokenKind} : Skips kinds (isAt kind) := by
  intro position inside
  rw [ensures_isAt]
  exact .nothing (Nat.le_refl position) inside

theorem advance_skips : Skips kinds advance := by
  intro position inside
  rw [ensures_advance]
  refine ⟨fun _ => .nothing (Nat.le_refl position) inside, fun _ lt => ?_⟩
  exact .nothing (Nat.le_succ position) lt

/-- A token that is accepted is the one at the position, and has been read. -/
theorem accept?_reads
    {kind : TokenKind}
    {position : Nat}
    (notEof : kind ≠ .eof)
    (inside : position ≤ kinds.size) :
    Ensures kinds (accept? kind) position fun index? stop =>
      Reads kinds position [] stop ∧
        ∀ index, index? = some index →
          index.val = position ∧ kindAt kinds position = kind ∧ stop = position + 1 := by
  refine (ensures_accept? notEof).mpr ⟨fun found lt => ⟨?_, ?_⟩, fun _ => ⟨?_, ?_⟩⟩
  · exact .nothing (Nat.le_succ position) lt
  · rintro index ⟨⟩
    exact ⟨rfl, found, rfl⟩
  · exact .nothing (Nat.le_refl position) inside
  · rintro index ⟨⟩

theorem accept_skips {kind : TokenKind} : Skips kinds (accept kind) := by
  unfold accept accept?
  refine .skip_bind (.skip_bind isAt_skips fun found => ?_) fun _ => .pure rfl
  cases found with
  | true => exact .skip_bind advance_skips fun _ => .pure rfl
  | false => exact .pure rfl

/-- After an optional token that leads a name, a name may start where it could before. -/
theorem accept_mayStart
    {kind : TokenKind}
    {position : Nat}
    (leads : kind.leadsName = true)
    (inside : position ≤ kinds.size)
    (mayStart : NameMayStart kinds position) :
    Ensures kinds (accept kind) position fun _ stop =>
      Reads kinds position [] stop ∧ NameMayStart kinds stop := by
  have notEof : kind ≠ .eof := by
    rintro rfl
    cases leads
  refine (ensures_accept notEof).mpr ⟨fun found lt => ⟨?_, ?_⟩, fun _ => ⟨?_, mayStart⟩⟩
  · exact .nothing (Nat.le_succ position) lt
  · exact nameMayStart_succ (found ▸ leads)
  · exact .nothing (Nat.le_refl position) inside

theorem expect_skips
    {kind : TokenKind}
    (notEof : kind ≠ .eof) :
    Skips kinds (expect kind) := by
  intro position inside
  rw [ensures_expect notEof]
  intro _ lt
  exact .nothing (Nat.le_succ position) lt

end Parser

end ZigLint
