import ZigLint.Proofs.Json.Literals

namespace ZigLint.Json

/-!
# Printed values are read back

`Json.parse?` undoes `Json.pretty` for every value without broken numbers that
does not nest too deeply. The induction follows the nesting of the value; the
lists of items and of entries share one argument about readers of their parts.
-/

open Reader

/-- At most `depth` arrays and objects nest in the value, and its numbers are whole. -/
inductive Fits : (depth : Nat) → Json → Prop where
  | null {depth : Nat} : Fits depth .null
  | boolean {depth : Nat} (truth : Bool) : Fits depth (.boolean truth)
  | integer {depth : Nat} (number : Int) : Fits depth (.integer number)
  | string {depth : Nat} (text : String) : Fits depth (.string text)
  | array {depth : Nat} {items : List Json} :
      (∀ item ∈ items, Fits depth item) →
      Fits (depth + 1) (.array items)
  | object {depth : Nat} {entries : List (String × Json)} :
      (∀ entry ∈ entries, Fits depth entry.2) →
      Fits (depth + 1) (.object entries)

/-- The characters that are skipped between the parts of a value. -/
def isBlank (char : Char) : Bool :=
  char == ' ' || char == '\t' || char == '\n' || char == '\r'

/-- A character that a part of a list may start with. -/
def opensPart (char : Char) : Bool :=
  !isBlank char && char != ']' && char != '\x7d'

/-- A part of a list is read back from its text, in front of anything that ends a number. -/
structure ReadsBack (part : Reader α) (text : List Char) (value : α) : Prop where
  starts : Starts opensPart text
  takes : ∀ rest, EndsRun continuesNumber rest → Takes part text value rest

variable {rest : List Char}

section Blanks

theorem takes_blanks
    {text : List Char}
    (blank : ∀ char ∈ text, isBlank char = true)
    (ends : EndsRun isBlank rest) :
    Takes blanks text () rest :=
  .bind_answer (takes_takeWhile blank ends) takes_pure

theorem isBlank_of_mem_newLine (depth : Nat) : ∀ char ∈ newLine depth, isBlank char = true := by
  intro char isIn
  obtain rfl | isIn := List.mem_cons.mp isIn
  · rfl
  · obtain rfl := List.eq_of_mem_replicate isIn
    rfl

theorem endsRun_isBlank_of_starts {text : List Char} (starts : Starts opensPart text) :
    EndsRun isBlank text := by
  refine starts.endsRun fun char opens => ?_
  simp only [opensPart, Bool.and_eq_true, Bool.not_eq_true'] at opens
  exact opens.1.1

end Blanks

section Lists

variable {part : Reader α} {written : α → List Char} {close : String} {mark : Char}

/-- The text that closes a list is one character, neither a blank nor a comma. -/
structure Closes (close : String) (mark : Char) : Prop where
  text : close.toList = [mark]
  noBlank : isBlank mark = false
  noComma : (mark == ',') = false
  opensNoPart : opensPart mark = false

theorem Closes.head (closes : Closes close mark) : close.toList.head? = some mark := by
  rw [closes.text]
  rfl

/-- One round of a list: a part and what follows it. -/
def listRound (close : String) (part : Reader α) : Reader (ForInStep (List α)) := do
  blanks
  let value ← part
  blanks
  if ← accept "," then
    return .yield [value]
  else
    expect close
    return .done [value]

/-- A round of a list takes a part, with the blanks before and after it. -/
theorem takes_listRound_part
    {lead tail later : List Char}
    {value : α}
    {answer : ForInStep (List α)}
    (leadBlank : ∀ char ∈ lead, isBlank char = true)
    (tailBlank : ∀ char ∈ tail, isBlank char = true)
    (ends : EndsRun isBlank (later ++ rest))
    (separated : EndsRun continuesNumber (tail ++ (later ++ rest)))
    (readsBack : ReadsBack part (written value) value)
    (goesOn :
      Takes
        (do
          if ← accept "," then
            return .yield [value]
          else
            expect close
            return .done [value])
        later answer rest) :
    Takes (listRound close part) (lead ++ (written value ++ (tail ++ later))) answer rest := by
  have starts : Starts opensPart (written value ++ (tail ++ later) ++ rest) := by
    rw [List.append_assoc]
    exact readsBack.starts.append
  refine .bind (takes_blanks leadBlank (endsRun_isBlank_of_starts starts)) ?_
  refine .bind (readsBack.takes _ ?_) ?_
  · rwa [List.append_assoc]
  · exact .bind (takes_blanks tailBlank ends) goesOn

/-- The parts of a list are read back in rounds, up to the closing bracket. -/
theorem rounds_list
    {lead : List Char}
    {first : α}
    {others : List α}
    {inner outer : Nat}
    (closes : Closes close mark)
    (leadBlank : ∀ char ∈ lead, isBlank char = true)
    (readsBack : ∀ value ∈ first :: others, ReadsBack part (written value) value) :
    Rounds (listRound close part)
      (lead ++ (written first ++
        (others.flatMap (fun value => ',' :: newLine inner ++ written value) ++
          (newLine outer ++ [mark]))))
      (first :: others) rest := by
  induction others generalizing lead first with
  | nil =>
      obtain ⟨readsFirst, -⟩ := List.forall_mem_cons.mp readsBack
      have noComma : EndsRun (· == ',') ([mark] ++ rest) := endsRun_cons closes.noComma
      have last : Takes (expect close) [mark] () rest := closes.text ▸ takes_expect
      rw [List.flatMap_nil, List.nil_append]
      refine .done (takes_listRound_part leadBlank (isBlank_of_mem_newLine outer)
        (endsRun_cons closes.noBlank) (endsRun_cons rfl) readsFirst ?_)
      exact .bind_look (takes_accept_false rfl noComma) (.bind_answer last takes_pure)
  | cons second others inductionHypothesis =>
      obtain ⟨readsFirst, readsOthers⟩ := List.forall_mem_cons.mp readsBack
      have goesOn := inductionHypothesis (isBlank_of_mem_newLine inner) readsOthers
      have round :
          Takes (listRound close part) (lead ++ (written first ++ ([] ++ [',']))) (.yield [first])
            (newLine inner ++ (written second ++
              (others.flatMap (fun value => ',' :: newLine inner ++ written value) ++
                (newLine outer ++ [mark]))) ++ rest) :=
        takes_listRound_part leadBlank (List.forall_mem_nil _) (endsRun_cons rfl)
          (endsRun_cons rfl) readsFirst (.bind_answer takes_accept takes_pure)
      have joined := Rounds.yield (by simp) round goesOn
      simpa using joined

/-- The text of a list after its opening bracket, with its parts one level deeper than itself. -/
def listText (depth : Nat) (mark : Char) (written : α → List Char) : List α → List Char
  | [] => [mark]
  | first :: others =>
      newLine (depth + 1) ++ (written first ++
        (others.flatMap (fun value => ',' :: newLine (depth + 1) ++ written value) ++
          (newLine depth ++ [mark])))

/-- The rest of a list is read back if its parts are. -/
theorem takes_listRest
    {depth : Nat}
    {values : List α}
    (closes : Closes close mark)
    (readsBack : ∀ value ∈ values, ReadsBack part (written value) value) :
    Takes (listRest close part) (listText depth mark written values) values rest := by
  cases values with
  | nil =>
      have noBlanks : Takes blanks [] () ([mark] ++ rest) :=
        takes_blanks (List.forall_mem_nil _) (endsRun_cons closes.noBlank)
      have accepted : Takes (accept close) [mark] true rest := closes.text ▸ takes_accept
      exact .bind_look noBlanks (.bind_answer accepted takes_pure)
  | cons first others =>
      obtain ⟨readsFirst, -⟩ := List.forall_mem_cons.mp readsBack
      have starts := readsFirst.starts
      refine .bind (takes_blanks (isBlank_of_mem_newLine (depth + 1)) ?_) ?_
      · rw [List.append_assoc]
        exact endsRun_isBlank_of_starts starts.append
      · refine .bind_look (takes_accept_false closes.head ?_) ?_
        · rw [List.append_assoc]
          exact starts.append.endsRun_mark closes.opensNoPart
        · exact (rounds_list closes (List.forall_mem_nil _) readsBack).takes_collect

end Lists

section Values

/-- A character that a value without parts may start with. -/
def opensScalar (char : Char) : Bool :=
  opensPart char && char != '[' && char != '\x7b'

theorem opensPart_of_opensScalar {char : Char} (opens : opensScalar char = true) :
    opensPart char = true := by
  simp only [opensScalar, Bool.and_eq_true] at opens
  exact opens.1.1

/-- A value without parts is read as such, at any depth. -/
theorem readsBack_scalar
    {depth : Nat}
    {text : List Char}
    {json : Json}
    (starts : Starts opensScalar text)
    (takes : ∀ rest, EndsRun continuesNumber rest → Takes scalar text json rest) :
    ReadsBack (value depth) text json := by
  refine ⟨starts.mono fun _ => opensPart_of_opensScalar, fun rest ends => ?_⟩
  cases depth with
  | zero => exact takes rest ends
  | succ depth =>
      refine .bind_look (takes_accept_false rfl (starts.append.endsRun_mark rfl)) ?_
      refine .bind_look (takes_accept_false rfl (starts.append.endsRun_mark rfl)) ?_
      exact takes rest ends

theorem opensScalar_of_opensNumber {char : Char} (opens : opensNumber char = true) :
    opensScalar char = true := by
  refine eq_true_of_ne_false fun closed => ?_
  simp only [opensScalar, opensPart, isBlank, Bool.and_eq_false_iff, Bool.not_eq_false',
    Bool.or_eq_true, beq_iff_eq, bne_eq_false_iff_eq] at closed
  obtain ((((((rfl | rfl) | rfl) | rfl) | rfl) | rfl) | rfl) | rfl := closed <;>
    exact absurd opens (by decide)

theorem readsBack_null {depth : Nat} : ReadsBack (value depth) "null".toList .null := by
  refine readsBack_scalar (starts_cons rfl) fun rest _ => ?_
  exact .bind_answer takes_accept takes_pure

theorem readsBack_true {depth : Nat} : ReadsBack (value depth) "true".toList (.boolean true) := by
  refine readsBack_scalar (starts_cons rfl) fun rest _ => ?_
  refine .bind_look (takes_accept_false rfl (endsRun_cons rfl)) ?_
  exact .bind_answer takes_accept takes_pure

theorem readsBack_false {depth : Nat} :
    ReadsBack (value depth) "false".toList (.boolean false) := by
  refine readsBack_scalar (starts_cons rfl) fun rest _ => ?_
  refine .bind_look (takes_accept_false rfl (endsRun_cons rfl)) ?_
  refine .bind_look (takes_accept_false rfl (endsRun_cons rfl)) ?_
  exact .bind_answer takes_accept takes_pure

theorem readsBack_string {depth : Nat} (text : String) :
    ReadsBack (value depth) (literal text) (.string text) := by
  refine readsBack_scalar (starts_cons rfl) fun rest _ => ?_
  refine .bind_look (takes_accept_false rfl (endsRun_cons rfl)) ?_
  refine .bind_look (takes_accept_false rfl (endsRun_cons rfl)) ?_
  refine .bind_look (takes_accept_false rfl (endsRun_cons rfl)) ?_
  refine .bind_look takes_peek? ?_
  exact .bind_answer takes_stringLiteral takes_pure

theorem readsBack_integer {depth : Nat} (number : Int) :
    ReadsBack (value depth) (wholeNumber number) (.integer number) := by
  have starts := starts_wholeNumber number
  refine readsBack_scalar (starts.mono fun _ => opensScalar_of_opensNumber) fun rest ends => ?_
  refine .bind_look (takes_accept_false rfl (starts.append.endsRun_mark rfl)) ?_
  refine .bind_look (takes_accept_false rfl (starts.append.endsRun_mark rfl)) ?_
  refine .bind_look (takes_accept_false rfl (starts.append.endsRun_mark rfl)) ?_
  refine .bind_look takes_peek? ?_
  split
  · rename_i isQuote
    have noQuote : EndsRun (· == '"') (wholeNumber number ++ rest) :=
      starts.append.endsRun_mark rfl
    exact absurd (noQuote '"' isQuote) (by decide)
  · exact takes_number ends

theorem closes_bracket : Closes "]" ']' where
  text := rfl
  noBlank := rfl
  noComma := rfl
  opensNoPart := rfl

theorem closes_brace : Closes "\x7d" '\x7d' where
  text := rfl
  noBlank := rfl
  noComma := rfl
  opensNoPart := rfl

theorem prettyItems_eq (depth : Nat) (items : List Json) :
    prettyItems depth items =
      items.flatMap fun item => ',' :: newLine depth ++ prettyChars depth item := by
  induction items with
  | nil => rfl
  | cons item items inductionHypothesis =>
      rw [prettyItems, inductionHypothesis, List.flatMap_cons]

/-- The text of an entry of an object. -/
def writtenEntry (depth : Nat) (entry : String × Json) : List Char :=
  literal entry.1 ++ ([':'] ++ ([' '] ++ prettyChars depth entry.2))

theorem prettyEntries_eq (depth : Nat) (entries : List (String × Json)) :
    prettyEntries depth entries =
      entries.flatMap fun entry => ',' :: newLine depth ++ writtenEntry depth entry := by
  induction entries with
  | nil => rfl
  | cons entry entries inductionHypothesis =>
      rw [prettyEntries, inductionHypothesis, List.flatMap_cons, writtenEntry]
      simp only [List.cons_append, List.nil_append, List.append_assoc]

theorem prettyChars_array (depth : Nat) (items : List Json) :
    prettyChars depth (.array items) =
      ['['] ++ listText depth ']' (prettyChars (depth + 1)) items := by
  cases items with
  | nil => simp [prettyChars, listText]
  | cons item items => simp [prettyChars, listText, prettyItems_eq]

theorem prettyChars_object (depth : Nat) (entries : List (String × Json)) :
    prettyChars depth (.object entries) =
      ['\x7b'] ++ listText depth '\x7d' (writtenEntry (depth + 1)) entries := by
  cases entries with
  | nil => simp [prettyChars, listText]
  | cons entry entries => simp [prettyChars, listText, prettyEntries_eq, writtenEntry]

theorem readsBack_entry
    {depth indentation : Nat}
    {pair : String × Json}
    (readsBack : ReadsBack (value depth) (prettyChars indentation pair.2) pair.2) :
    ReadsBack (entry (value depth)) (writtenEntry indentation pair) pair := by
  refine ⟨starts_cons rfl, fun rest ends => ?_⟩
  have noBlanks :
      Takes blanks [] () ([':'] ++ ([' '] ++ prettyChars indentation pair.2) ++ rest) :=
    takes_blanks (List.forall_mem_nil _) (endsRun_cons rfl)
  have blank : Takes blanks [' '] () (prettyChars indentation pair.2 ++ rest) := by
    refine takes_blanks ?_ (endsRun_isBlank_of_starts readsBack.starts.append)
    exact List.forall_mem_singleton.mpr rfl
  refine .bind takes_stringLiteral (.bind_look noBlanks ?_)
  refine .bind takes_expect (.bind blank ?_)
  exact .bind_answer (readsBack.takes rest ends) takes_pure

/-- A value that fits is read back from its text, at any indentation. -/
theorem Fits.readsBack
    {depth : Nat}
    {json : Json}
    (fits : Fits depth json)
    (indentation : Nat) :
    ReadsBack (value depth) (prettyChars indentation json) json := by
  induction fits generalizing indentation with
  | null => exact readsBack_null
  | boolean truth =>
      cases truth with
      | false => exact readsBack_false
      | true => exact readsBack_true
  | integer number => exact readsBack_integer number
  | string text => exact readsBack_string text
  | array _ inductionHypothesis =>
      rw [prettyChars_array]
      refine ⟨starts_cons rfl, fun rest _ => ?_⟩
      refine .bind takes_accept (.bind_answer (takes_listRest closes_bracket ?_) takes_pure)
      intro item isIn
      exact inductionHypothesis item isIn (indentation + 1)
  | object _ inductionHypothesis =>
      rw [prettyChars_object]
      refine ⟨starts_cons rfl, fun rest _ => ?_⟩
      refine .bind_look (takes_accept_false rfl (endsRun_cons rfl)) ?_
      refine .bind takes_accept (.bind_answer (takes_listRest closes_brace ?_) takes_pure)
      intro pair isIn
      exact readsBack_entry (inductionHypothesis pair isIn (indentation + 1))

/-- A value that fits is read back from its text on lines of their own. -/
theorem Fits.parse?_pretty {json : Json} (fits : Fits maxDepth json) :
    parse? (json.pretty ++ "\n") = some json := by
  have readsBack := fits.readsBack 0
  have noBlanks : Takes blanks [] () (prettyChars 0 json ++ ['\n'] ++ []) :=
    takes_blanks (List.forall_mem_nil _) (endsRun_isBlank_of_starts readsBack.starts.append.append)
  have lastBreak : Takes blanks ['\n'] () [] :=
    takes_blanks (List.forall_mem_singleton.mpr rfl) (fun _ isHead => nomatch isHead)
  have takes : Takes document (prettyChars 0 json ++ ['\n']) json [] := by
    refine .bind_look noBlanks (.bind (readsBack.takes _ (endsRun_cons rfl)) ?_)
    exact .bind_answer lastBreak (.bind_look takes_atEnd takes_pure)
  refine Takes.run?_eq ?_
  rw [String.toList_append, pretty, String.toList_ofList]
  exact takes

end Values

end ZigLint.Json
