import ZigLint.Json.Parser
import ZigLint.Json.Printer
import ZigLint.Proofs.Text.Takes

namespace ZigLint.Json

/-!
# String literals and numbers are read back

The texts that the printer writes for strings and whole numbers, followed by the
reader from left to right. A number is read as far as it goes, so its text is
taken whole only in front of a character that cannot continue it.
-/

open Reader
open Text (digitValue digitsValue isHexDigit)

variable {rest : List Char}

section Strings

theorem escapeChar_of_isPlain {char : Char} (plain : isPlain char = true) :
    escapeChar char = [char] := by
  simp only [isPlain, Bool.and_eq_true, decide_eq_true_eq, bne_iff_ne] at plain
  obtain ⟨⟨printable, noQuote⟩, noBackslash⟩ := plain
  have notControl : ∀ {control : Char}, control.toNat < 0x20 → char ≠ control := by
    rintro control small rfl
    omega
  rw [escapeChar, if_neg noQuote, if_neg noBackslash, if_neg (notControl (by decide)),
    if_neg (notControl (by decide)), if_neg (notControl (by decide)),
    if_neg (notControl (by decide)), if_neg (notControl (by decide)), if_neg (by omega)]

/-- The four digits of a control character are those of its code. -/
theorem hexPair_code :
    ∀ code < 0x20, ('0' :: '0' :: hexPair code).all isHexDigit = true ∧
      digitsValue 16 ('0' :: '0' :: hexPair code) = code := by
  decide

theorem takes_unicodeEscape {char : Char} (control : char.toNat < 0x20) :
    Takes unicodeEscape ('0' :: '0' :: hexPair char.toNat) char rest := by
  obtain ⟨allDigits, code_eq⟩ := hexPair_code char.toNat control
  have codeTaken : Takes codeUnit ('0' :: '0' :: hexPair char.toNat) char.toNat rest := by
    refine .bind_answer (takes_takeExactly allDigits) ?_
    rw [code_eq]
    exact takes_pure
  refine .bind_answer codeTaken ?_
  rw [if_neg (by simp; omega), if_neg (by simp; omega), Char.ofNat_toNat]
  exact takes_pure

/-- A character that does not stand for itself is written as an escape and read from it. -/
theorem takes_escape
    (rest : List Char)
    {char : Char}
    (special : isPlain char = false) :
    ∃ code, escapeChar char = '\\' :: code ∧ Takes escape code char rest := by
  by_cases quote : char = '"'
  · subst quote
    exact ⟨['"'], rfl, .bind_answer takes_next takes_pure⟩
  by_cases backslash : char = '\\'
  · subst backslash
    exact ⟨['\\'], rfl, .bind_answer takes_next takes_pure⟩
  by_cases backspace : char = '\x08'
  · subst backspace
    exact ⟨['b'], rfl, .bind_answer takes_next takes_pure⟩
  by_cases formFeed : char = '\x0c'
  · subst formFeed
    exact ⟨['f'], rfl, .bind_answer takes_next takes_pure⟩
  by_cases lineFeed : char = '\n'
  · subst lineFeed
    exact ⟨['n'], rfl, .bind_answer takes_next takes_pure⟩
  by_cases carriageReturn : char = '\r'
  · subst carriageReturn
    exact ⟨['r'], rfl, .bind_answer takes_next takes_pure⟩
  by_cases tab : char = '\t'
  · subst tab
    exact ⟨['t'], rfl, .bind_answer takes_next takes_pure⟩
  have control : char.toNat < 0x20 := by
    refine Nat.lt_of_not_le fun printable => ?_
    simp [isPlain, quote, backslash, printable] at special
  refine ⟨'u' :: '0' :: '0' :: hexPair char.toNat, ?_, ?_⟩
  · rw [escapeChar, if_neg quote, if_neg backslash, if_neg backspace, if_neg formFeed,
      if_neg lineFeed, if_neg carriageReturn, if_neg tab, if_pos control]
    rfl
  · exact Takes.bind takes_next (takes_unicodeEscape control)

/-- One round of a string literal: its end, an escape or a run of plain characters. -/
def stringRound : Reader (ForInStep (List Char)) := do
  if ← accept "\"" then
    return .done []
  else if ← accept "\\" then
    return .yield [← escape]
  else
    return .yield (← takeWhile1 isPlain)

theorem endsRun_isPlain_escaped (chars : List Char) :
    EndsRun isPlain ((chars.dropWhile isPlain).flatMap escapeChar ++ ['"'] ++ rest) := by
  cases left : chars.dropWhile isPlain with
  | nil => exact endsRun_cons rfl
  | cons char others =>
      have special : isPlain char = false := by
        have notEmpty : chars.dropWhile isPlain ≠ [] := by simp [left]
        have headSpecial := List.head_dropWhile_not isPlain notEmpty
        simpa [left] using headSpecial
      obtain ⟨code, code_eq, -⟩ := takes_escape [] special
      simp only [List.flatMap_cons, code_eq, List.cons_append]
      exact endsRun_cons rfl

theorem rounds_escape
    {char : Char}
    {later items : List Char}
    (special : isPlain char = false)
    (goesOn : Rounds stringRound later items rest) :
    Rounds stringRound (escapeChar char ++ later) (char :: items) rest := by
  obtain ⟨code, code_eq, takesCode⟩ := takes_escape (later ++ rest) special
  rw [code_eq]
  have round : Takes stringRound ('\\' :: code) (.yield [char]) (later ++ rest) := by
    refine .bind_look (takes_accept_false rfl (endsRun_cons rfl)) ?_
    exact Takes.bind takes_accept (.bind_answer takesCode takes_pure)
  exact Rounds.yield (List.cons_ne_nil _ _) round goesOn

theorem flatMap_escapeChar {run : List Char} (plain : ∀ char ∈ run, isPlain char = true) :
    run.flatMap escapeChar = run := by
  induction run with
  | nil => rfl
  | cons char others inductionHypothesis =>
      obtain ⟨headPlain, othersPlain⟩ := List.forall_mem_cons.mp plain
      rw [List.flatMap_cons, escapeChar_of_isPlain headPlain, inductionHypothesis othersPlain]
      rfl

theorem rounds_run
    {run later items : List Char}
    (notEmpty : run ≠ [])
    (plain : ∀ char ∈ run, isPlain char = true)
    (ends : EndsRun isPlain (later ++ rest))
    (goesOn : Rounds stringRound later items rest) :
    Rounds stringRound (run.flatMap escapeChar ++ later) (run ++ items) rest := by
  obtain ⟨first, others, rfl⟩ := List.exists_cons_of_ne_nil notEmpty
  have starts : Starts isPlain (first :: others ++ (later ++ rest)) :=
    starts_cons (plain first List.mem_cons_self)
  rw [flatMap_escapeChar plain]
  refine .yield notEmpty ?_ goesOn
  refine .bind_look (takes_accept_false rfl (starts.endsRun_mark rfl)) ?_
  refine .bind_look (takes_accept_false rfl (starts.endsRun_mark rfl)) ?_
  exact .bind_answer (takes_takeWhile1 notEmpty plain ends) takes_pure

/-- The characters of a string are read back in rounds, up to the closing quote. -/
theorem rounds_string (chars : List Char) :
    Rounds stringRound (chars.flatMap escapeChar ++ ['"']) chars rest := by
  -- A round may take many characters at once, so the induction is on their number.
  induction number : chars.length using Nat.strongRecOn generalizing chars with
  | ind number inductionHypothesis =>
      subst number
      cases chars with
      | nil => exact .done (.bind_answer takes_accept takes_pure)
      | cons char others =>
          cases plain : isPlain char with
          | false =>
              rw [List.flatMap_cons, List.append_assoc]
              refine rounds_escape plain (inductionHypothesis others.length ?_ others rfl)
              exact Nat.lt_succ_self others.length
          | true =>
              have shorter :
                  ((char :: others).dropWhile isPlain).length < (char :: others).length := by
                rw [List.dropWhile_cons_of_pos plain]
                exact Nat.lt_succ_of_le (List.dropWhile_sublist isPlain).length_le
              have split := List.takeWhile_append_dropWhile (p := isPlain) (l := char :: others)
              have notEmpty : (char :: others).takeWhile isPlain ≠ [] := by simp [plain]
              have goesOn := inductionHypothesis _ shorter _ rfl
              rw [← split, List.flatMap_append, List.append_assoc]
              exact rounds_run notEmpty (List.all_eq_true.mp List.all_takeWhile)
                (endsRun_isPlain_escaped _) goesOn

theorem takes_stringLiteral {text : String} : Takes stringLiteral (literal text) text rest := by
  have inner :
      Takes (collect stringRound) (text.toList.flatMap escapeChar ++ ['"']) text.toList rest :=
    (rounds_string text.toList).takes_collect
  show Takes stringLiteral (['"'] ++ (text.toList.flatMap escapeChar ++ ['"'])) text rest
  refine .bind takes_expect (.bind_answer inner ?_)
  rw [String.ofList_toList]
  exact takes_pure

end Strings

section Numbers

/-- A character that may continue a number. -/
def continuesNumber (char : Char) : Bool :=
  char.isDigit || char == '.' || char == 'e' || char == 'E'

theorem digitValue_digitChar : ∀ digit < 10, digitValue (Nat.digitChar digit) = digit := by
  decide

/-- The decimal digits of a number write that number. -/
theorem digitsValue_toDigits (number : Nat) :
    digitsValue 10 (Nat.toDigits 10 number) = number := by
  induction number using Nat.strongRecOn with
  | ind number inductionHypothesis =>
      by_cases small : number < 10
      · rw [Nat.toDigits_of_lt_base small]
        simp [digitsValue, digitValue_digitChar number small]
      · have fewer := inductionHypothesis (number / 10) (by omega)
        have last := digitValue_digitChar (number % 10) (Nat.mod_lt _ (by decide))
        rw [Nat.toDigits_of_base_le (by decide) (by omega), digitsValue, List.foldl_append,
          ← digitsValue, fewer, List.foldl_cons, List.foldl_nil, last, Nat.mul_comm,
          Nat.div_add_mod]

/-- Only the number zero is written with a zero in front. -/
theorem eq_zero_of_head?_toDigits
    {number : Nat}
    (head : (Nat.toDigits 10 number).head? = some '0') :
    number = 0 := by
  induction number using Nat.strongRecOn with
  | ind number inductionHypothesis =>
      by_cases small : number < 10
      · have onlyZero : ∀ digit < 10, Nat.digitChar digit = '0' → digit = 0 := by decide
        rw [Nat.toDigits_of_lt_base small] at head
        exact onlyZero number small (Option.some.inj head)
      · rw [Nat.toDigits_of_base_le (by decide) (by omega), List.head?_append,
          Option.or_of_isSome (by simp [Nat.toDigits_ne_nil])] at head
        have := inductionHypothesis (number / 10) (by omega) head
        omega

theorem takes_wholeDigits
    {number : Nat}
    (ends : EndsRun Char.isDigit rest) :
    Takes wholeDigits (Nat.toDigits 10 number) (Nat.toDigits 10 number) rest := by
  have allDigits : ∀ char ∈ Nat.toDigits 10 number, char.isDigit = true :=
    fun _ isDigit => Nat.isDigit_of_mem_toDigits (by decide) (Nat.le_refl 10) isDigit
  have wellFormed :
      ¬((Nat.toDigits 10 number).length > 1 ∧ (Nat.toDigits 10 number).head? = some '0') := by
    rintro ⟨long, head⟩
    rw [eq_zero_of_head?_toDigits head, Nat.toDigits_zero] at long
    exact absurd long (by decide)
  refine .bind_answer (takes_takeWhile1 Nat.toDigits_ne_nil allDigits ends) ?_
  rw [if_neg wellFormed]
  exact takes_pure

theorem starts_toDigits (number : Nat) : Starts Char.isDigit (Nat.toDigits 10 number) := by
  obtain ⟨digit, more, digits_eq⟩ :=
    List.exists_cons_of_ne_nil (Nat.toDigits_ne_nil : Nat.toDigits 10 number ≠ [])
  have isIn : digit ∈ Nat.toDigits 10 number := digits_eq ▸ List.mem_cons_self
  rw [digits_eq]
  exact starts_cons (Nat.isDigit_of_mem_toDigits (by decide) (Nat.le_refl 10) isIn)

theorem takes_fraction (ends : EndsRun continuesNumber rest) : Takes fraction [] [] rest := by
  have noPoint : EndsRun (· == '.') rest :=
    ends.mono fun char isPoint => by simp [continuesNumber, isPoint]
  exact .bind_look (takes_accept_false rfl noPoint) takes_pure

theorem takes_exponent (ends : EndsRun continuesNumber rest) : Takes exponent [] [] rest := by
  refine .bind_look takes_peek? ?_
  cases rest with
  | nil => exact takes_pure
  | cons char others =>
      have noMark : (char == 'e' || char == 'E') = false := by
        have := ends char rfl
        simp only [continuesNumber, Bool.or_eq_false_iff] at this
        simp [this]
      dsimp only [List.head?_cons, List.nil_append]
      rw [noMark]
      exact takes_pure

/-- A whole number is read back, its sign and its digits. -/
theorem takes_number {number : Int} (ends : EndsRun continuesNumber rest) :
    Takes Json.number (wholeNumber number) (.integer number) rest := by
  have noDigit : EndsRun Char.isDigit rest :=
    ends.mono fun char isDigit => by simp [continuesNumber, isDigit]
  by_cases negative : number < 0
  · rw [wholeNumber, if_pos negative]
    refine Takes.bind takes_accept (.bind_answer (takes_wholeDigits noDigit) ?_)
    refine .bind_look (takes_fraction ends) (.bind_look (takes_exponent ends) ?_)
    dsimp only
    rw [digitsValue_toDigits, if_pos ⟨rfl, by simp; omega⟩, if_pos rfl]
    have number_eq : -(number.natAbs : Int) = number := by omega
    rw [number_eq]
    exact takes_pure
  · rw [wholeNumber, if_neg negative]
    have noSign : EndsRun (· == '-') (Nat.toDigits 10 number.natAbs ++ rest) :=
      (starts_toDigits _).append.endsRun_mark rfl
    refine .bind_look (takes_accept_false rfl noSign) ?_
    refine .bind_answer (takes_wholeDigits noDigit) ?_
    refine .bind_look (takes_fraction ends) (.bind_look (takes_exponent ends) ?_)
    dsimp only
    rw [digitsValue_toDigits, if_pos ⟨rfl, by simp⟩, if_neg Bool.false_ne_true]
    have number_eq : (number.natAbs : Int) = number := by omega
    rw [number_eq]
    exact takes_pure

/-- A character that a whole number may start with. -/
def opensNumber (char : Char) : Bool :=
  char == '-' || char.isDigit

theorem starts_wholeNumber (number : Int) : Starts opensNumber (wholeNumber number) := by
  rw [wholeNumber]
  split
  · exact starts_cons rfl
  · exact (starts_toDigits _).mono fun char isDigit => by simp [opensNumber, isDigit]

end Numbers

end ZigLint.Json
