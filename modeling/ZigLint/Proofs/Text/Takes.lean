import ZigLint.Text.Reader

namespace ZigLint

/-!
# What a reader takes

`Reader.Takes` says that a reader succeeds, which text it reads and what it
leaves. Every primitive of a reader has a law of this form, and laws are joined
as the computations are, so that a text is shown to be read by following it from
left to right.
-/

/-- The characters of a text of which nothing has been read. -/
def Unread.ofChars (chars : List Char) : Unread where
  chars
  count := chars.length
  count_eq := rfl

theorem Unread.eq_ofChars (input : Unread) : input = .ofChars input.chars := by
  obtain ⟨chars, count, rfl⟩ := input
  rfl

theorem Unread.drop_ofChars (text rest : List Char) :
    (Unread.ofChars (text ++ rest)).drop text.length = .ofChars rest := by
  rw [eq_ofChars (drop _ _)]
  exact congrArg Unread.ofChars List.drop_left

namespace Reader

/-- With `text` and then `rest` left to read, the reader takes `text` and answers `value`. -/
def Takes (reader : Reader α) (text : List Char) (value : α) (rest : List Char) : Prop :=
  reader (.ofChars (text ++ rest)) = some (value, .ofChars rest)

variable
  {text later rest : List Char}
  {property : Char → Bool}

theorem takes_pure {value : α} : Takes (pure value) [] value rest :=
  rfl

/-- A reader takes what its two parts take, one after the other. -/
theorem Takes.bind
    {reader : Reader α}
    {next : α → Reader β}
    {value : α}
    {result : β}
    (first : Takes reader text value (later ++ rest))
    (second : Takes (next value) later result rest) :
    Takes (reader >>= next) (text ++ later) result rest := by
  show StateT.bind reader next (.ofChars (text ++ later ++ rest)) = _
  rw [StateT.bind, List.append_assoc, first]
  exact second

/-- A reader that only looks is followed by one that takes the text. -/
theorem Takes.bind_look
    {reader : Reader α}
    {next : α → Reader β}
    {value : α}
    {result : β}
    (looks : Takes reader [] value (text ++ rest))
    (takes : Takes (next value) text result rest) :
    Takes (reader >>= next) text result rest :=
  looks.bind takes

/-- A reader that takes the text is followed by one that answers without reading. -/
theorem Takes.bind_answer
    {reader : Reader α}
    {next : α → Reader β}
    {value : α}
    {result : β}
    (takes : Takes reader text value rest)
    (answers : Takes (next value) [] result rest) :
    Takes (reader >>= next) text result rest := by
  rw [← List.append_nil text]
  exact .bind takes answers

theorem takes_get : Takes get [] (.ofChars rest) rest :=
  rfl

theorem takes_peek? : Takes peek? [] rest.head? rest :=
  rfl

theorem takes_atEnd : Takes atEnd [] rest.isEmpty rest :=
  rfl

theorem takes_skip : Takes (skip text.length) text () rest :=
  congrArg (fun input => some ((), input)) (Unread.drop_ofChars text rest)

theorem takes_next {char : Char} : Takes next [char] char rest :=
  .bind_look takes_peek? (.bind_answer takes_skip takes_pure)

/-- A run of characters ends before `rest`. -/
def EndsRun (property : Char → Bool) (rest : List Char) : Prop :=
  ∀ char ∈ rest.head?, property char = false

theorem endsRun_cons {char : Char} (differs : property char = false) :
    EndsRun property (char :: rest) := by
  intro head isHead
  obtain rfl : char = head := Option.some.inj isHead
  exact differs

theorem EndsRun.mono
    {other : Char → Bool}
    (ends : EndsRun property rest)
    (weaker : ∀ char, other char = true → property char = true) :
    EndsRun other rest := by
  intro char isHead
  refine Bool.eq_false_iff.mpr fun holds => ?_
  have := ends char isHead
  rw [weaker char holds] at this
  cases this

/-- A text starts with a character that has the property. -/
def Starts (property : Char → Bool) (text : List Char) : Prop :=
  ∃ char ∈ text.head?, property char = true

theorem starts_cons {char : Char} (holds : property char = true) :
    Starts property (char :: rest) :=
  ⟨char, rfl, holds⟩

theorem Starts.append (starts : Starts property text) : Starts property (text ++ rest) := by
  obtain ⟨char, isHead, holds⟩ := starts
  exact ⟨char, by rw [List.head?_append, isHead]; rfl, holds⟩

theorem Starts.mono
    {other : Char → Bool}
    (starts : Starts property text)
    (weaker : ∀ char, property char = true → other char = true) :
    Starts other text := by
  obtain ⟨char, isHead, holds⟩ := starts
  exact ⟨char, isHead, weaker char holds⟩

theorem Starts.endsRun
    {other : Char → Bool}
    (starts : Starts property text)
    (excludes : ∀ char, property char = true → other char = false) :
    EndsRun other text := by
  obtain ⟨char, isHead, holds⟩ := starts
  intro head isHead'
  obtain rfl : char = head := Option.some.inj (isHead.symm.trans isHead')
  exact excludes char holds

/-- A text does not start with a character that lacks the property of its first one. -/
theorem Starts.endsRun_mark
    {mark : Char}
    (starts : Starts property text)
    (lacks : property mark = false) :
    EndsRun (· == mark) text := by
  refine starts.endsRun fun char holds => ?_
  refine Bool.eq_false_iff.mpr fun same => ?_
  rw [eq_of_beq same, lacks] at holds
  cases holds

/-- A text that comes next is accepted. -/
theorem takes_accept {expected : String} : Takes (accept expected) expected.toList true rest := by
  have comes : expected.toList.isPrefixOf (Unread.ofChars (expected.toList ++ rest)).chars = true :=
    List.isPrefixOf_iff_prefix.mpr (List.prefix_append expected.toList rest)
  apply Takes.bind_look takes_get
  rw [if_pos comes, ← String.length_toList]
  exact .bind_answer takes_skip takes_pure

/-- A text with another first character is not. -/
theorem takes_accept_false
    {expected : String}
    {mark : Char}
    (starts : expected.toList.head? = some mark)
    (ends : EndsRun (· == mark) rest) :
    Takes (accept expected) [] false rest := by
  obtain ⟨more, expected_eq⟩ := List.head?_eq_some_iff.mp starts
  have differs : expected.toList.isPrefixOf rest = false := by
    rw [expected_eq]
    cases rest with
    | nil => rfl
    | cons char _ =>
        have otherChar : (mark == char) = false := BEq.comm.trans (ends char rfl)
        rw [List.isPrefixOf_cons_cons, otherChar, Bool.false_and]
  have declines : ¬expected.toList.isPrefixOf (Unread.ofChars rest).chars = true :=
    Bool.eq_false_iff.mp differs
  apply Takes.bind_look (takes_get : Takes get [] (.ofChars rest) rest)
  rw [if_neg declines]
  exact takes_pure

theorem takes_expect {expected : String} : Takes (expect expected) expected.toList () rest :=
  .bind_answer takes_accept takes_pure

/-- The longest run is taken: characters with the property, up to one without it. -/
theorem takes_takeWhile
    (all : ∀ char ∈ text, property char = true)
    (ends : EndsRun property rest) :
    Takes (takeWhile property) text text rest := by
  have run : (text ++ rest).takeWhile property = text := by
    rw [List.takeWhile_append_of_pos all]
    cases rest with
    | nil => simp
    | cons char _ => simp [ends char rfl]
  have looks : Takes (peekWhile property) [] text (text ++ rest) :=
    congrArg (fun taken => some (taken, Unread.ofChars (text ++ rest))) run
  exact .bind_look looks (.bind_answer takes_skip takes_pure)

theorem takes_takeWhile1
    (notEmpty : text ≠ [])
    (all : ∀ char ∈ text, property char = true)
    (ends : EndsRun property rest) :
    Takes (takeWhile1 property) text text rest := by
  refine .bind_answer (takes_takeWhile all ends) ?_
  rw [if_neg (by simpa using notEmpty)]
  exact takes_pure

theorem takes_takeExactly
    (all : text.all property = true) :
    Takes (takeExactly text.length property) text text rest := by
  have run : (Unread.ofChars (text ++ rest)).chars.take text.length = text := List.take_left
  apply Takes.bind_look takes_get
  dsimp only
  rw [run, if_pos ⟨rfl, all⟩]
  exact .bind_answer takes_skip takes_pure

section Repetition

variable {round : α → Reader (ForInStep α)} {value next last : α}

theorem takes_iterate_done
    (done : Takes (round value) text (.done last) rest) :
    Takes (iterate round value) text last rest := by
  unfold Takes iterate
  rw [done]

theorem takes_iterate_yield
    (notEmpty : text ≠ [])
    (yields : Takes (round value) text (.yield next) (later ++ rest))
    (goesOn : Takes (iterate round next) later last rest) :
    Takes (iterate round value) (text ++ later) last rest := by
  unfold Takes iterate
  rw [List.append_assoc, yields]
  have shorter :
      (Unread.ofChars (later ++ rest)).count <
        (Unread.ofChars (text ++ (later ++ rest))).count := by
    have := List.length_pos_iff.mpr notEmpty
    simp only [Unread.ofChars, List.length_append]
    omega
  simp only [shorter, if_true]
  exact goesOn

end Repetition

/-- A text is read round by round: every round but the last takes something. -/
inductive Rounds (round : Reader (ForInStep (List α))) :
    (text : List Char) → (items : List α) → (rest : List Char) → Prop where
  | done
      {text rest : List Char}
      {last : List α} :
      Takes round text (.done last) rest →
      Rounds round text last rest
  | yield
      {text later rest : List Char}
      {more items : List α} :
      text ≠ [] →
      Takes round text (.yield more) (later ++ rest) →
      Rounds round later items rest →
      Rounds round (text ++ later) (more ++ items) rest

/--
A step that puts the list of each round before the earlier ones collects the items.

The lists stay in reverse order until the end, where they are joined.
-/
theorem Rounds.takes_joined
    {round : Reader (ForInStep (List α))}
    {step : List (List α) → Reader (ForInStep (List (List α)))}
    {items : List α}
    (rounds : Rounds round text items rest)
    (onDone : ∀ {text rest : List Char} {last : List α} {earlier : List (List α)},
      Takes round text (.done last) rest →
        Takes (step earlier) text (.done (last :: earlier)) rest)
    (onYield : ∀ {text rest : List Char} {more : List α} {earlier : List (List α)},
      Takes round text (.yield more) rest →
        Takes (step earlier) text (.yield (more :: earlier)) rest)
    (earlier : List (List α)) :
    Takes (do return (← iterate step earlier).reverse.flatten) text
      (earlier.reverse.flatten ++ items) rest := by
  have iterated :
      ∃ lists,
        lists.reverse.flatten = earlier.reverse.flatten ++ items ∧
          Takes (iterate step earlier) text lists rest := by
    induction rounds generalizing earlier with
    | @done text rest last done =>
        exact ⟨last :: earlier, by simp, takes_iterate_done (onDone done)⟩
    | @yield text later rest more items notEmpty yields _ inductionHypothesis =>
        obtain ⟨lists, joined, goesOn⟩ := inductionHypothesis (more :: earlier)
        exact ⟨lists, by simp [joined], takes_iterate_yield notEmpty (onYield yields) goesOn⟩
  obtain ⟨lists, joined, takes⟩ := iterated
  refine .bind_answer takes ?_
  rw [joined]
  exact takes_pure

/-- What the rounds answer is collected in their order. -/
theorem Rounds.takes_collect
    {round : Reader (ForInStep (List α))}
    {items : List α}
    (rounds : Rounds round text items rest) :
    Takes (collect round) text items rest := by
  refine rounds.takes_joined ?_ ?_ []
  · intro text rest last earlier done
    exact .bind_answer done takes_pure
  · intro text rest more earlier yields
    exact .bind_answer yields takes_pure

/-- A reader that takes a whole text answers for it. -/
theorem Takes.run?_eq
    {reader : Reader α}
    {value : α}
    {whole : String}
    (takes : Takes reader whole.toList value []) :
    reader.run? whole = some value := by
  rw [Takes, List.append_nil] at takes
  show (reader (.ofChars whole.toList)).map Prod.fst = _
  rw [takes]
  rfl

end Reader

end ZigLint
