import ZigLint.Proofs.Parser.ExpressionPlacement

namespace ZigLint.Parser

/-!
# Placement of declarations, blocks and containers

Every declaration yields a node that starts at its first modifier and encloses
its parts. A member of a container ends with a brace, a comma or a semicolon,
or else the container ends after it; this is why the name of a field never
follows a point.
-/

variable {kinds : Array TokenKind} {inner : Inner} {start : TokenIndex} {position : Nat}

/-- A binding starts at `start` and its keyword stands at the position. -/
theorem varDecl_reads
    (yields : InnerYields kinds inner)
    {isPub isExtern : Bool}
    (startLe : start.val ≤ position)
    (leads : (kindAt kinds position).leadsName = true) :
    Ensures kinds (varDecl inner start isPub isExtern) position fun ast stop =>
      Reads kinds start.val [ast] stop ∧ NameMayStart kinds stop := by
  unfold varDecl
  simp only [ensures_bind, ensures_isAt, ensures_finish]
  refine ensures_advance.mpr ⟨fun isEof => ?_, fun _ _ => ?_⟩
  · rw [isEof] at leads
    cases leads
  refine (ensures_expect (by decide)).mpr fun isName nameLt => ?_
  refine (after?_yields (by decide) yields.typeExpr _ nameLt).mono
    fun type? afterType typeReads => ?_
  refine (skipDeclModifiers_skips _ typeReads.stop_le_size).mono
    fun _ afterModifiers skipped => ?_
  refine (after?_yields (by decide) (expr_yields yields) _ skipped.stop_le_size).mono
    fun value? afterValue valueReads => ?_
  have partsRead := typeReads.append valueReads skipped.start_le_stop
  refine (ensures_expect (by decide)).mpr fun isSemicolon semicolonLt => ?_
  refine ⟨?_, nameMayStart_succ (by rw [isSemicolon]; rfl)⟩
  exact .of_finish_named startLe (Nat.le_succ position) isName (nameMayStart_succ leads)
    (partsRead.widen (Nat.le_refl _) (Nat.le_succ afterValue) semicolonLt) (by simp) rfl

theorem endStatement_skips : Skips kinds endStatement := by
  refine .skip_bind previous_skips fun before => ?_
  split
  · exact .skip_bind accept_skips fun _ => .pure rfl
  · exact .skip_bind (expect_skips (by decide)) fun _ => .pure rfl

theorem statement_yields
    (yields : InnerYields kinds inner) :
    Yields kinds (fun ast => [ast]) (statement inner) := by
  intro position inside
  unfold statement
  simp only [ensures_bind, ensures_here, ensures_current, ensures_peek]
  split
  case h_7 =>
      simp only [ensures_bind, ensures_pure]
      refine (assignExpr_yields yields position inside).mono
        fun expression afterExpression expressionReads => ?_
      refine (endStatement_skips _ expressionReads.stop_le_size).mono fun _ stop ended => ?_
      exact expressionReads.append ended (Nat.le_refl _)
  case h_1 atKeyword | h_2 atKeyword =>
      refine (varDecl_reads yields (Nat.le_refl position) ?_).mono fun _ _ reads => reads.1
      rw [atKeyword]
      rfl
  case h_3 atComptime atKeyword | h_4 atComptime atKeyword =>
      simp only [ensures_bind]
      refine ensures_advance.mpr ⟨fun isEof => by simp_all, fun _ _ => ?_⟩
      refine (varDecl_reads yields (Nat.le_succ position) ?_).mono fun _ _ reads => reads.1
      rw [atKeyword]
      rfl
  case h_5 atKeyword | h_6 atKeyword =>
      simp only [ensures_bind, ensures_finish]
      refine ensures_advance.mpr ⟨fun isEof => by simp_all, fun _ lt => ?_⟩
      refine (skipCapture_skips _ lt).mono fun _ afterCapture skipped => ?_
      refine (assignExpr_yields yields _ skipped.stop_le_size).mono
        fun body afterBody bodyReads => ?_
      refine (endStatement_skips _ bodyReads.stop_le_size).mono fun _ stop ended => ?_
      have bodyLt := bodyReads.start_lt_stop
      have captureLe := skipped.start_le_stop
      have endLe := ended.start_le_stop
      exact .of_finish (Nat.le_refl position) (by show position < stop; omega)
        ((bodyReads.append ended (Nat.le_refl _)).from_earlier (by show position ≤ _; omega))
        rfl rfl

/-- A block starts at `start`, which may be a label before its brace. -/
theorem block_reads
    (yields : InnerYields kinds inner)
    (startLe : start.val ≤ position) :
    Ensures kinds (block inner start) position fun ast stop =>
      Reads kinds start.val [ast] stop ∧ NameMayStart kinds stop := by
  unfold block
  simp only [ensures_bind, ensures_finish]
  refine (ensures_expect (by decide)).mpr fun _ braceLt => ?_
  refine (collect_yields ?_ _ braceLt).mono fun statements afterStatements statementsRead => ?_
  · refine .skip_bind isAt_skips fun atEnd => ?_
    cases atEnd with
    | true => exact .pure rfl
    | false =>
        refine .skip_bind isAt_skips fun atEof => ?_
        cases atEof with
        | true => exact .mismatch
        | false =>
            intro position inside
            simp only [Bool.false_eq_true, if_false, ensures_bind, ensures_pure]
            exact statement_yields yields position inside
  · refine (ensures_expect (by decide)).mpr fun isBrace lt => ?_
    refine ⟨?_, nameMayStart_succ (by rw [isBrace]; rfl)⟩
    have := statementsRead.start_le_stop
    exact .of_finish startLe (by show position < afterStatements + 1; omega)
      (statementsRead.widen (by omega) (Nat.le_succ _) lt) (by simp) rfl

/-- The name of a parameter is the token at the position. -/
theorem parameterName?_reads
    (inside : position ≤ kinds.size) :
    Ensures kinds parameterName? position fun name? stop =>
      Reads kinds position [] stop ∧
        ∀ name, name? = some name → name.val = position ∧ position < stop := by
  unfold parameterName?
  simp only [ensures_bind, ensures_current, ensures_peek]
  split
  case h_2 =>
      refine ensures_pure.mpr ⟨.nothing (Nat.le_refl position) inside, ?_⟩
      intro name named
      cases named
  case h_1 atName atColon =>
      simp only [ensures_bind, ensures_pure]
      refine ensures_advance.mpr ⟨fun isEof => by simp_all, fun _ _ => ?_⟩
      refine ensures_advance.mpr ⟨fun isEof => by simp_all, fun _ lt => ?_⟩
      refine ⟨.nothing (by omega) lt, ?_⟩
      rintro name ⟨⟩
      exact ⟨rfl, by omega⟩

theorem parameterType_yields
    (yields : InnerYields kinds inner) :
    Yields kinds (fun ast => [ast]) (parameterType inner) := by
  intro position inside
  unfold parameterType
  simp only [ensures_bind]
  refine (ensures_accept? (by decide)).mpr ⟨fun _ lt => ?_, fun _ => ?_⟩
  · refine ensures_finish.mpr ?_
    exact .of_finish (Nat.le_refl position) (Nat.lt_succ_self position)
      (.nothing (Nat.le_succ position) lt) rfl rfl
  · exact yields.typeExpr position inside

theorem parameter?_yields
    (yields : InnerYields kinds inner) :
    Yields kinds Option.toList (parameter? inner) := by
  intro start inside
  unfold parameter?
  simp only [ensures_bind, ensures_here]
  refine (accept_skips start inside).mono fun isVariadic afterDots dots => ?_
  cases isVariadic with
  | true => exact ensures_pure.mpr dots
  | false =>
      simp only [Bool.false_eq_true, if_false, ensures_bind, ensures_finish, ensures_pure]
      refine (skipEither_skips _ dots.stop_le_size).mono fun _ afterModifier skipped => ?_
      refine (parameterName?_reads skipped.stop_le_size).mono
        fun name? afterName ⟨nameRead, isName⟩ => ?_
      refine (parameterType_yields yields _ nameRead.stop_le_size).mono
        fun type stop typeReads => ?_
      have dotsLe := dots.start_le_stop
      have modifierLe := skipped.start_le_stop
      have nameLe := nameRead.start_le_stop
      have typeLt := typeReads.start_lt_stop
      have mainBounds : start ≤ (name?.getD ⟨start⟩).val ∧ (name?.getD ⟨start⟩).val < stop := by
        cases name? with
        | none => exact ⟨Nat.le_refl start, by show start < stop; omega⟩
        | some name =>
            obtain ⟨nameEq, nameLt⟩ := isName name rfl
            exact ⟨by show start ≤ name.val; omega, by show name.val < stop; omega⟩
      exact .of_finish mainBounds.1 mainBounds.2 (typeReads.from_earlier (by show start ≤ _; omega))
        rfl rfl

theorem returnType_yields
    (yields : InnerYields kinds inner) :
    Yields kinds (fun ast => [ast]) (returnType inner) := by
  intro position inside
  unfold returnType
  simp only [ensures_bind]
  refine (ensures_accept? (by decide)).mpr ⟨fun _ lt => ?_, fun _ => ?_⟩
  · simp only [ensures_bind, ensures_finish]
    exact prefixed_reads yields.typeExpr rfl (Nat.lt_succ_self position) lt
  · exact yields.typeExpr position inside

/-- A prototype starts at `start` and its keyword stands at the position. -/
theorem prototype_reads
    (yields : InnerYields kinds inner)
    {isPub isExtern : Bool}
    (startLe : start.val ≤ position) :
    Ensures kinds (prototype inner start isPub isExtern) position fun ast stop =>
      Reads kinds start.val [ast] stop := by
  unfold prototype
  simp only [ensures_bind, ensures_finish]
  refine (ensures_expect (by decide)).mpr fun isKeyword keywordLt => ?_
  refine (accept?_reads (by decide) keywordLt).mono fun name? afterName ⟨nameRead, isName⟩ => ?_
  refine (ensures_expect (by decide)).mpr fun _ parenLt => ?_
  refine (collect_yields ?_ _ parenLt).mono fun parameters afterParameters parametersRead => ?_
  · refine .skip_bind isAt_skips fun atEnd => ?_
    cases atEnd with
    | true => exact .pure rfl
    | false =>
        intro position inside
        simp only [Bool.false_eq_true, if_false, ensures_bind, ensures_isAt]
        refine (parameter?_yields yields position inside).mono fun parameter middle reads => ?_
        split
        · exact ensures_pure.mpr reads
        · simp only [ensures_bind]
          refine (expect_after_reads (by decide) reads).mono fun _ stop closed => ?_
          exact ensures_pure.mpr closed.2.2
  refine (expect_after_reads (by decide) parametersRead).mono fun _ afterParen closed => ?_
  obtain ⟨-, -, closedRead⟩ := closed
  refine (skipDeclModifiers_skips _ closedRead.stop_le_size).mono
    fun _ afterModifiers skipped => ?_
  refine (returnType_yields yields _ skipped.stop_le_size).mono
    fun returned stop returnedReads => ?_
  have partsRead : Reads kinds afterName (parameters ++ [returned]) stop :=
    (closedRead.append returnedReads skipped.start_le_stop).from_earlier (Nat.le_succ afterName)
  have partsLe := partsRead.start_le_stop
  have nameLe := nameRead.start_le_stop
  cases name? with
  | none =>
      exact .of_finish startLe (by show position < stop; omega)
        (partsRead.from_earlier (by omega)) (by simp) rfl
  | some name =>
      obtain ⟨nameEq, isIdentifier, afterEq⟩ := isName name rfl
      rw [← nameEq] at isIdentifier afterEq
      have mayStart : NameMayStart kinds name.val := by
        rw [nameEq]
        exact nameMayStart_succ (by rw [isKeyword]; rfl)
      exact .of_finish_named startLe (by show position ≤ name.val; omega) isIdentifier mayStart
        (afterEq ▸ partsRead) (by simp) rfl

theorem fnBody?_reads
    (yields : InnerYields kinds inner) :
    Ensures kinds (fnBody? inner) position fun body? stop =>
      Reads kinds position body?.toList stop ∧ NameMayStart kinds stop := by
  unfold fnBody?
  simp only [ensures_bind, ensures_isAt, ensures_ite, ensures_here, ensures_pure]
  refine ⟨fun _ => block_reads yields (Nat.le_refl position), fun _ => ?_⟩
  refine (ensures_expect (by decide)).mpr fun isSemicolon lt => ?_
  exact ⟨.nothing (Nat.le_succ position) lt, nameMayStart_succ (by rw [isSemicolon]; rfl)⟩

/-- A function starts at `start` and its keyword stands at the position. -/
theorem fnDecl_reads
    (yields : InnerYields kinds inner)
    {isPub isExtern : Bool}
    (startLe : start.val ≤ position) :
    Ensures kinds (fnDecl inner start isPub isExtern) position fun ast stop =>
      Reads kinds start.val [ast] stop ∧ NameMayStart kinds stop := by
  unfold fnDecl
  simp only [ensures_bind, ensures_finish]
  refine (prototype_reads yields startLe).mono fun prototype afterPrototype prototypeReads => ?_
  refine (fnBody?_reads yields).mono fun body? stop ⟨bodyReads, mayStart⟩ => ?_
  refine ⟨?_, mayStart⟩
  have mainBounds := prototypeReads.main_bounds
  exact .of_finish mainBounds.1 (Nat.lt_of_lt_of_le mainBounds.2 bodyReads.start_le_stop)
    (prototypeReads.append bodyReads (Nat.le_refl _)) (by simp) rfl

theorem declModifiers_skips : Skips kinds declModifiers := by
  refine iterate_skips fun isExtern => .skip_bind current_skips fun kind => ?_
  split
  case h_7 => exact .pure rfl
  case h_1 =>
    refine .skip_bind advance_skips fun _ => ?_
    exact .skip_bind accept_skips fun _ => .pure rfl
  all_goals exact .skip_bind advance_skips fun _ => .pure rfl

/-- A declaration starts at `start`, which may be a modifier before the position. -/
theorem decl_reads
    (yields : InnerYields kinds inner)
    {isPub : Bool}
    (startLe : start.val ≤ position)
    (inside : position ≤ kinds.size) :
    Ensures kinds (decl inner start isPub) position fun ast stop =>
      Reads kinds start.val [ast] stop ∧ NameMayStart kinds stop := by
  unfold decl
  simp only [ensures_bind, ensures_current]
  refine (declModifiers_skips _ inside).mono fun isExtern afterModifiers skipped => ?_
  have startLe := Nat.le_trans startLe skipped.start_le_stop
  split
  case h_1 => exact fnDecl_reads yields startLe
  case h_2 atKeyword | h_3 atKeyword =>
      exact varDecl_reads yields startLe (by rw [atKeyword]; rfl)
  case h_4 =>
      rw [ensures_mismatch]
      trivial

/-- A field is read whole where its name may stand. -/
theorem containerField_reads
    (yields : InnerYields kinds inner)
    (inside : position ≤ kinds.size)
    (mayStart : NameMayStart kinds position) :
    Ensures kinds (containerField inner) position fun ast stop =>
      Reads kinds position [ast] stop := by
  unfold containerField
  simp only [ensures_bind, ensures_here, ensures_isAt, ensures_peek, ensures_ite, ensures_finish]
  refine (accept_mayStart rfl inside mayStart).mono
    fun _ before ⟨modifierRead, nameMayStart⟩ => ?_
  have positionLe := modifierRead.start_le_stop
  constructor
  · intro isNamed
    have isName : kindAt kinds before = .identifier := by simp_all
    refine ensures_advance.mpr ⟨fun isEof => by simp_all, fun _ nameLt => ?_⟩
    refine (after?_yields (by decide) yields.typeExpr _ nameLt).mono
      fun type? afterType typeReads => ?_
    refine (skipDeclModifiers_skips _ typeReads.stop_le_size).mono
      fun _ afterModifiers skipped => ?_
    refine (after?_yields (by decide) (expr_yields yields) _ skipped.stop_le_size).mono
      fun value? stop valueReads => ?_
    exact .of_finish_named positionLe (Nat.le_refl before) isName nameMayStart
      (typeReads.append valueReads skipped.start_le_stop) (by simp) rfl
  · intro _
    refine (yields.typeExpr before modifierRead.stop_le_size).mono
      fun type afterType typeReads => ?_
    refine (skipDeclModifiers_skips _ typeReads.stop_le_size).mono
      fun _ afterModifiers skipped => ?_
    refine (after?_yields (by decide) (expr_yields yields) _ skipped.stop_le_size).mono
      fun value? stop valueReads => ?_
    have partsRead := typeReads.append valueReads skipped.start_le_stop
    have firstBounds := partsRead.inRow.mem (List.mem_cons_self)
    exact .of_finish (by show position ≤ type.head.first.val; omega)
      (by show type.head.first.val < stop; omega)
      (partsRead.from_earlier positionLe) (by simp) rfl

theorem skipTestName_skips : Skips kinds skipTestName := by
  refine .skip_bind isAt_skips fun atBody => ?_
  cases atBody with
  | true => exact .pure rfl
  | false => exact .skip_bind advance_skips fun _ => .pure rfl

/-- A test starts with its keyword at the position. -/
theorem testDecl_reads
    (yields : InnerYields kinds inner)
    (notEof : kindAt kinds position ≠ .eof) :
    Ensures kinds (testDecl inner) position fun ast stop =>
      Reads kinds position [ast] stop ∧ NameMayStart kinds stop := by
  unfold testDecl
  simp only [ensures_bind, ensures_here, ensures_finish]
  refine ensures_advance.mpr ⟨fun isEof => (notEof isEof).elim, fun _ lt => ?_⟩
  refine (skipTestName_skips _ lt).mono fun _ afterName skipped => ?_
  refine (block_reads yields (Nat.le_refl afterName)).mono
    fun body stop ⟨bodyReads, mayStart⟩ => ?_
  have nameLe := skipped.start_le_stop
  have bodyLt : afterName < stop := bodyReads.start_lt_stop
  exact ⟨.of_finish (Nat.le_refl position) (by show position < stop; omega)
    (bodyReads.from_earlier (by show position ≤ afterName; omega)) rfl rfl, mayStart⟩

/--
A member is read whole where its name may stand. After it another name may
stand, unless the container ends there.
-/
theorem containerMember_reads
    (yields : InnerYields kinds inner)
    (inside : position ≤ kinds.size)
    (mayStart : NameMayStart kinds position) :
    Ensures kinds (containerMember inner) position fun ast stop =>
      Reads kinds position [ast] stop ∧
        (NameMayStart kinds stop ∨ kindAt kinds stop = .rBrace) := by
  unfold containerMember
  simp only [ensures_bind, ensures_current, ensures_peek]
  split
  case h_1 atTest =>
      refine (testDecl_reads yields (by rw [atTest]; decide)).mono fun ast stop reads => ?_
      exact ⟨reads.1, .inl reads.2⟩
  case h_2 atComptime atBrace =>
      simp only [ensures_bind, ensures_finish]
      refine ensures_advance.mpr ⟨fun isEof => by simp_all, fun _ _ => ?_⟩
      refine (block_reads yields (Nat.le_succ position)).mono
        fun body stop ⟨bodyReads, stopMayStart⟩ => ?_
      exact ⟨.of_finish (Nat.le_refl position) bodyReads.start_lt_stop bodyReads rfl rfl,
        .inl stopMayStart⟩
  case h_3 =>
      simp only [ensures_bind, ensures_here]
      refine (accept_mayStart rfl inside mayStart).mono ?_
      rintro isPub afterPub ⟨pubRead, nameMayStart⟩
      have positionLe := pubRead.start_le_stop
      refine (ensures_accept? (by decide)).mpr ⟨fun isUsing usingLt => ?_, fun _ => ?_⟩
      · simp only [ensures_bind, ensures_finish]
        refine (expr_yields yields _ usingLt).mono
          fun expression afterExpression expressionReads => ?_
        refine (ensures_expect (by decide)).mpr fun isSemicolon lt => ?_
        refine ⟨?_, .inl (nameMayStart_succ (by rw [isSemicolon]; rfl))⟩
        have := expressionReads.start_lt_stop
        exact .of_finish positionLe (by show afterPub < afterExpression + 1; omega)
          (expressionReads.widen (by show position ≤ _; omega) (Nat.le_succ _) lt) rfl rfl
      · simp only [ensures_bind, ensures_current, ensures_ite, ensures_isAt, ensures_pure]
        constructor
        · intro _
          refine (decl_reads yields positionLe pubRead.stop_le_size).mono fun ast stop reads => ?_
          exact ⟨reads.1, .inl reads.2⟩
        · intro _
          refine (containerField_reads yields pubRead.stop_le_size nameMayStart).mono
            fun field afterField fieldReads => ?_
          have fieldReads := fieldReads.from_earlier positionLe
          constructor
          · intro atBrace
            exact ⟨fieldReads, .inr (by simpa using atBrace)⟩
          · intro _
            refine (ensures_expect (by decide)).mpr fun isComma lt => ?_
            exact ⟨fieldReads.widen (Nat.le_refl _) (Nat.le_succ _) lt,
              .inl (nameMayStart_succ (by rw [isComma]; rfl))⟩

/-- The members of a container stand in order, and another name may stand after them. -/
theorem containerMembers_reads
    (yields : InnerYields kinds inner)
    (inside : position ≤ kinds.size)
    (mayStart : NameMayStart kinds position) :
    Ensures kinds (containerMembers inner) position fun members stop =>
      Reads kinds position members stop ∧
        (NameMayStart kinds stop ∨ kindAt kinds stop = .rBrace) := by
  refine ensures_collect
    (fun members stop => Reads kinds position members stop ∧
      (NameMayStart kinds stop ∨ kindAt kinds stop = .rBrace)) ?_
    ⟨.nothing (Nat.le_refl position) inside, .inl mayStart⟩
  rintro members middle ⟨membersRead, middleMayStart⟩
  simp only [ensures_bind, ensures_current]
  split
  case h_1 | h_2 =>
      refine ensures_pure.mpr ⟨?_, middleMayStart⟩
      simpa [ForInStep.value] using membersRead
  case h_3 notBrace _ =>
      simp only [ensures_bind, ensures_pure]
      have mayStart := middleMayStart.resolve_right notBrace
      refine (containerMember_reads yields membersRead.stop_le_size mayStart).mono ?_
      rintro member stop ⟨memberReads, stopMayStart⟩
      exact ⟨membersRead.append memberReads (Nat.le_refl middle), stopMayStart⟩

theorem tagType?_yields
    (yields : InnerYields kinds inner) :
    Yields kinds Option.toList (tagType? inner) := by
  refine .skip_bind accept_skips fun isEnum => ?_
  cases isEnum with
  | true =>
      refine .skip_bind isAt_skips fun hasWidth => ?_
      cases hasWidth with
      | true => exact .skip_bind skipParens_skips fun _ => .pure rfl
      | false => exact .pure rfl
  | false =>
      intro position inside
      simp only [Bool.false_eq_true, if_false, ensures_bind, ensures_pure]
      exact expr_yields yields position inside

theorem containerTag?_yields
    (yields : InnerYields kinds inner) :
    Yields kinds Option.toList (containerTag? inner) := by
  refine .skip_bind accept_skips fun isTagged => ?_
  cases isTagged with
  | false => exact .pure rfl
  | true =>
      intro position inside
      simp only [if_true, ensures_bind, ensures_pure]
      refine (tagType?_yields yields position inside).mono fun tag? afterTag tagReads => ?_
      refine (expect_after_reads (by decide) tagReads).mono fun _ stop closed => ?_
      exact closed.2.2

theorem containerDecl_yields
    (yields : InnerYields kinds inner) :
    Yields kinds (fun ast => [ast]) (containerDecl inner) := by
  intro start inside
  unfold containerDecl
  simp only [ensures_bind, ensures_here, ensures_current]
  refine (skipEither_skips start inside).mono fun _ position skipped => ?_
  split
  case h_1 =>
      rw [ensures_mismatch]
      trivial
  case h_2 kind isKind =>
      simp only [ensures_bind, ensures_finish]
      refine ensures_advance.mpr ⟨fun isEof => ?_, fun _ lt => ?_⟩
      · rw [isEof] at isKind
        cases isKind
      refine (containerTag?_yields yields _ lt).mono fun tag? afterTag tagReads => ?_
      refine (ensures_expect (by decide)).mpr fun isBrace braceLt => ?_
      refine (containerMembers_reads yields braceLt (nameMayStart_succ (by rw [isBrace]; rfl))).mono
        fun members afterMembers ⟨membersRead, _⟩ => ?_
      refine (expect_after_reads (by decide)
        (tagReads.append membersRead (Nat.le_succ afterTag))).mono fun _ stop closed => ?_
      obtain ⟨-, -, partsRead⟩ := closed
      exact .of_finish_container skipped.start_le_stop partsRead (by simp)

end ZigLint.Parser
