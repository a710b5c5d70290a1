import ZigLint.Naming.Style
import ZigLint.Proofs.Text.Parts
import ZigLint.Proofs.Token.Cut

namespace ZigLint

/-!
# Converted names

Conversion turns words into words: it drops and inserts underscores and changes
the case of letters, but keeps the first character apart from its case. What it
gives follows the style, except that the styles which ask for a letter first are
not followed by a name that has a digit there.
-/

namespace Text

variable {char : Char}

theorem isLower_or_isDigit_toLower
    (isAlphanum : char.isAlphanum = true) :
    (char.toLower.isLower || char.toLower.isDigit) = true := by
  simp only [Char.isAlphanum, Bool.or_eq_true, isAlpha_iff, isUpper_iff_toNat, isLower_iff_toNat,
    Char.isDigit_iff_toNat, Char.reduceToNat, toNat_toLower] at isAlphanum ⊢
  split <;> omega

theorem isUpper_or_isDigit_toUpper
    (isAlphanum : char.isAlphanum = true) :
    (char.toUpper.isUpper || char.toUpper.isDigit) = true := by
  simp only [Char.isAlphanum, Bool.or_eq_true, isAlpha_iff, isUpper_iff_toNat, isLower_iff_toNat,
    Char.isDigit_iff_toNat, Char.reduceToNat, toNat_toUpper] at isAlphanum ⊢
  split <;> omega

/-- Case conversion neither makes nor removes a digit. -/
theorem isDigit_toLower : char.toLower.isDigit = char.isDigit := by
  rw [Bool.eq_iff_iff]
  simp only [Char.isDigit_iff_toNat, Char.reduceToNat, toNat_toLower, isUpper_iff_toNat]
  split <;> omega

theorem isDigit_toUpper : char.toUpper.isDigit = char.isDigit := by
  rw [Bool.eq_iff_iff]
  simp only [Char.isDigit_iff_toNat, Char.reduceToNat, toNat_toUpper, isLower_iff_toNat]
  split <;> omega

theorem not_isUpper_of_isDigit
    (isDigit : char.isDigit = true) :
    char.isUpper = false := by
  rw [Bool.eq_false_iff, ne_eq, isUpper_iff_toNat]
  simp only [Char.isDigit_iff_toNat, Char.reduceToNat] at isDigit
  omega

theorem not_isLower_of_isDigit
    (isDigit : char.isDigit = true) :
    char.isLower = false := by
  rw [Bool.eq_false_iff, ne_eq, isLower_iff_toNat]
  simp only [Char.isDigit_iff_toNat, Char.reduceToNat] at isDigit
  omega

theorem isAlphanum_of_isLower_or_isDigit
    (isEither : (char.isLower || char.isDigit) = true) :
    char.isAlphanum = true := by
  simp only [Bool.or_eq_true] at isEither
  simp only [Char.isAlphanum, Bool.or_eq_true, isAlpha_iff]
  rcases isEither with isLower | isDigit
  · exact .inl (.inr isLower)
  · exact .inr isDigit

theorem isAlphanum_of_isUpper_or_isDigit
    (isEither : (char.isUpper || char.isDigit) = true) :
    char.isAlphanum = true := by
  simp only [Bool.or_eq_true] at isEither
  simp only [Char.isAlphanum, Bool.or_eq_true, isAlpha_iff]
  rcases isEither with isUpper | isDigit
  · exact .inl (.inl isUpper)
  · exact .inr isDigit

end Text

namespace NameWord

theorem splitUnderscores_cons
    {first : Char}
    (notUnderscore : first ≠ '_')
    (rest : List Char) :
    ∃ part parts, splitUnderscores (first :: rest) = (first :: part) :: parts := by
  cases rest with
  | nil => exact ⟨[], [], by simp [splitUnderscores, notUnderscore]⟩
  | cons next after =>
      rw [splitUnderscores, if_neg notUnderscore]
      split
      · exact ⟨[], _, rfl⟩
      · split
        · exact ⟨_, _, rfl⟩
        · exact ⟨[], [], rfl⟩

theorem splitCase_cons
    (first : Char)
    (rest : List Char) :
    ∃ word words, splitCase (first :: rest) = (first :: word) :: words := by
  cases rest with
  | nil => exact ⟨[], [], rfl⟩
  | cons next after =>
      rw [splitCase]
      split
      · exact ⟨[], _, rfl⟩
      · split
        · exact ⟨_, _, rfl⟩
        · exact ⟨[], [], rfl⟩

theorem splitUnderscores_underscore
    (rest : List Char) :
    splitUnderscores ('_' :: rest) = splitUnderscores rest := by
  cases rest <;> simp [splitUnderscores]

/-- The parts between underscores are all characters but the underscores. -/
theorem flatten_splitUnderscores
    (chars : List Char) :
    (splitUnderscores chars).flatten = chars.filter (· != '_') := by
  induction chars with
  | nil => rfl
  | cons char rest inductionHypothesis =>
      by_cases isUnderscore : char = '_'
      · subst isUnderscore
        rw [splitUnderscores_underscore, inductionHypothesis]
        rfl
      · rw [List.filter_cons_of_pos (by simpa using isUnderscore), ← inductionHypothesis]
        cases rest with
        | nil => simp [splitUnderscores, isUnderscore]
        | cons next after =>
            rw [splitUnderscores, if_neg isUnderscore]
            by_cases nextUnderscore : next = '_'
            · rw [if_pos nextUnderscore]
              rfl
            · obtain ⟨part, parts, partsEq⟩ := splitUnderscores_cons nextUnderscore after
              rw [if_neg nextUnderscore, partsEq]
              rfl

/-- Cutting a part into words keeps all its characters. -/
theorem flatten_splitCase
    (chars : List Char) :
    (splitCase chars).flatten = chars := by
  induction chars with
  | nil => rfl
  | cons previous rest inductionHypothesis =>
      cases rest with
      | nil => rfl
      | cons char after =>
          obtain ⟨word, words, wordsEq⟩ := splitCase_cons char after
          rw [wordsEq] at inductionHypothesis
          rw [splitCase, wordsEq]
          split <;> simpa using inductionHypothesis

/-- The words of a name hold all its characters but the underscores. -/
theorem flatten_split
    (chars : List Char) :
    (split chars).flatten = chars.filter (· != '_') := by
  rw [← flatten_splitUnderscores, split]
  induction splitUnderscores chars with
  | nil => rfl
  | cons part parts inductionHypothesis =>
      rw [List.flatMap_cons, List.flatten_append, inductionHypothesis, flatten_splitCase,
        List.flatten_cons]

/-- Leading underscores do not matter for the words of a name. -/
theorem split_dropWhile
    (chars : List Char) :
    split (chars.dropWhile (· == '_')) = split chars := by
  induction chars with
  | nil => rfl
  | cons char rest inductionHypothesis =>
      by_cases isUnderscore : char = '_'
      · subst isUnderscore
        rw [split, split, splitUnderscores_underscore]
        exact inductionHypothesis
      · rw [List.dropWhile_cons_of_neg (by simpa using isUnderscore)]

/-- The first word of a name starts where its leading underscores end. -/
theorem split_of_body
    {chars body : List Char}
    {first : Char}
    (bodyEq : chars.dropWhile (· == '_') = first :: body) :
    ∃ word words, split chars = (first :: word) :: words := by
  have notUnderscore : first ≠ '_' := by
    have := Text.stops_dropWhile chars first (by rw [bodyEq]; rfl)
    simpa using this
  obtain ⟨part, parts, partsEq⟩ := splitUnderscores_cons notUnderscore body
  obtain ⟨word, words, wordsEq⟩ := splitCase_cons first part
  rw [← split_dropWhile, bodyEq, split, partsEq, List.flatMap_cons, wordsEq]
  exact ⟨word, _, rfl⟩

/-- A letter or digit of a word of a name made of letters, digits and underscores. -/
theorem isAlphanum_of_mem_split
    {chars word : List Char}
    {char : Char}
    (allParts : chars.all Lexeme.isWordPart = true)
    (isWord : word ∈ split chars)
    (member : char ∈ word) :
    char.isAlphanum = true := by
  have inName : char ∈ chars.filter (· != '_') := by
    rw [← flatten_split]
    exact List.mem_flatten_of_mem isWord member
  obtain ⟨inChars, notUnderscore⟩ := List.mem_filter.mp inName
  have isPart := List.all_eq_true.mp allParts char inChars
  simp only [Lexeme.isWordPart, Bool.or_eq_true] at isPart
  exact isPart.resolve_right (by simpa using notUnderscore)

end NameWord

namespace NamingStyle

/-- The characters that a converted name may hold after its leading underscores. -/
def admits : NamingStyle → Char → Bool
  | .snakeCase, char => char.isLower || char.isDigit || char == '_'
  | .screamingSnakeCase, char => char.isUpper || char.isDigit || char == '_'
  | .lowerCase, char => char.isLower || char.isDigit
  | .off, char | .titleCase, char | .camelCase, char => char.isAlphanum

/-- The first character of a converted name after its leading underscores. -/
def leads : NamingStyle → Char → Char
  | .titleCase, char | .screamingSnakeCase, char => char.toUpper
  | .snakeCase, char | .camelCase, char | .lowerCase, char => char.toLower
  | .off, char => char

variable {style : NamingStyle} {words : List (List Char)} {char : Char}

section Cases

variable
  {word : List Char}
  (isWord : ∀ char ∈ word, char.isAlphanum = true)

include isWord

theorem isLower_or_isDigit_of_mem_lower
    (member : char ∈ NameWord.lower word) :
    (char.isLower || char.isDigit) = true := by
  obtain ⟨before, inWord, rfl⟩ := List.mem_map.mp member
  exact Text.isLower_or_isDigit_toLower (isWord before inWord)

theorem isUpper_or_isDigit_of_mem_upper
    (member : char ∈ NameWord.upper word) :
    (char.isUpper || char.isDigit) = true := by
  obtain ⟨before, inWord, rfl⟩ := List.mem_map.mp member
  exact Text.isUpper_or_isDigit_toUpper (isWord before inWord)

theorem isAlphanum_of_mem_lower
    (member : char ∈ NameWord.lower word) :
    char.isAlphanum = true :=
  Text.isAlphanum_of_isLower_or_isDigit (isLower_or_isDigit_of_mem_lower isWord member)

theorem isAlphanum_of_mem_capitalize
    (member : char ∈ NameWord.capitalize word) :
    char.isAlphanum = true := by
  cases word with
  | nil => simp [NameWord.capitalize] at member
  | cons first rest =>
      rcases List.mem_cons.mp member with rfl | inRest
      · exact Text.isAlphanum_of_isUpper_or_isDigit
          (Text.isUpper_or_isDigit_toUpper (isWord first List.mem_cons_self))
      · exact isAlphanum_of_mem_lower
          (fun char inRest => isWord char (List.mem_cons_of_mem _ inRest)) inRest

end Cases

/-- What is joined from letters and digits holds only what the style admits. -/
theorem admits_of_mem_joinWords
    (areWords : ∀ word ∈ words, ∀ char ∈ word, char.isAlphanum = true)
    (member : char ∈ style.joinWords words) :
    style.admits char = true := by
  cases style with
  | off =>
      obtain ⟨word, isWord, inWord⟩ := List.mem_flatten.mp member
      exact areWords word isWord char inWord
  | snakeCase =>
      rcases Text.mem_intercalate member with rfl | ⟨_, isMapped, inWord⟩
      · rfl
      · obtain ⟨word, isWord, rfl⟩ := List.mem_map.mp isMapped
        have := isLower_or_isDigit_of_mem_lower (areWords word isWord) inWord
        rw [admits, this, Bool.true_or]
  | screamingSnakeCase =>
      rcases Text.mem_intercalate member with rfl | ⟨_, isMapped, inWord⟩
      · rfl
      · obtain ⟨word, isWord, rfl⟩ := List.mem_map.mp isMapped
        have := isUpper_or_isDigit_of_mem_upper (areWords word isWord) inWord
        rw [admits, this, Bool.true_or]
  | lowerCase =>
      obtain ⟨_, isMapped, inWord⟩ := List.mem_flatten.mp member
      obtain ⟨word, isWord, rfl⟩ := List.mem_map.mp isMapped
      exact isLower_or_isDigit_of_mem_lower (areWords word isWord) inWord
  | titleCase =>
      obtain ⟨_, isMapped, inWord⟩ := List.mem_flatten.mp member
      obtain ⟨word, isWord, rfl⟩ := List.mem_map.mp isMapped
      exact isAlphanum_of_mem_capitalize (areWords word isWord) inWord
  | camelCase =>
      cases words with
      | nil => cases member
      | cons first rest =>
          rcases List.mem_append.mp member with inFirst | inRest
          · exact isAlphanum_of_mem_lower (areWords first List.mem_cons_self) inFirst
          · obtain ⟨_, isMapped, inWord⟩ := List.mem_flatten.mp inRest
            obtain ⟨word, isWord, rfl⟩ := List.mem_map.mp isMapped
            exact isAlphanum_of_mem_capitalize
              (areWords word (List.mem_cons_of_mem _ isWord)) inWord

/-- What is joined from words starts with the first character of the first word. -/
theorem joinWords_cons
    (style : NamingStyle)
    (first : Char)
    (word : List Char)
    (words : List (List Char)) :
    ∃ rest, style.joinWords ((first :: word) :: words) = style.leads first :: rest := by
  cases style with
  | snakeCase | screamingSnakeCase => cases words <;> exact ⟨_, rfl⟩
  | off | titleCase | camelCase | lowerCase => exact ⟨_, rfl⟩

theorem isWordPart_of_admits
    (isAdmitted : style.admits char = true) :
    Lexeme.isWordPart char = true := by
  simp only [Lexeme.isWordPart, Bool.or_eq_true]
  cases style with
  | off | titleCase | camelCase => exact .inl isAdmitted
  | lowerCase => exact .inl (Text.isAlphanum_of_isLower_or_isDigit isAdmitted)
  | snakeCase =>
      rcases Bool.or_eq_true _ _ |>.mp isAdmitted with isEither | isUnderscore
      · exact .inl (Text.isAlphanum_of_isLower_or_isDigit isEither)
      · exact .inr isUnderscore
  | screamingSnakeCase =>
      rcases Bool.or_eq_true _ _ |>.mp isAdmitted with isEither | isUnderscore
      · exact .inl (Text.isAlphanum_of_isUpper_or_isDigit isEither)
      · exact .inr isUnderscore

theorem isDigit_leads : (style.leads char).isDigit = char.isDigit := by
  cases style with
  | off => rfl
  | titleCase | screamingSnakeCase => exact Text.isDigit_toUpper
  | snakeCase | camelCase | lowerCase => exact Text.isDigit_toLower

/--
A name that is changed by conversion has a first word, and keeps its leading
underscores before the joined words.
-/
theorem convert_cases
    (style : NamingStyle)
    (name : String) :
    style.convert name = name ∨
      ∃ first word words,
        NameWord.split name.toList = (first :: word) :: words ∧
          (name.toList.dropWhile (· == '_')).head? = some first ∧
            (style.convert name).toList =
              name.toList.takeWhile (· == '_') ++ style.joinWords ((first :: word) :: words) := by
  by_cases unchanged : style = .off ∨ (NameWord.split name.toList).isEmpty = true
  · exact .inl (if_pos unchanged)
  · refine .inr ?_
    have convertEq : style.convert name =
        String.ofList (name.toList.takeWhile (· == '_') ++
          style.joinWords (NameWord.split name.toList)) :=
      if_neg unchanged
    cases bodyEq : name.toList.dropWhile (· == '_') with
    | nil =>
        rw [← NameWord.split_dropWhile, bodyEq] at unchanged
        exact (unchanged (.inr rfl)).elim
    | cons first body =>
        obtain ⟨word, words, wordsEq⟩ := NameWord.split_of_body bodyEq
        refine ⟨first, word, words, wordsEq, rfl, ?_⟩
        rw [convertEq, String.toList_ofList, wordsEq]

open Lexeme (IsWord isWordStart isWordPart)

variable {name : String}

theorem all_isWordPart_of_isWord
    {chars : List Char}
    (isWord : IsWord chars) :
    chars.all isWordPart = true := by
  obtain ⟨first, rest, rfl, startsWord, inside⟩ := isWord
  simp [Lexeme.isWordPart_of_isWordStart startsWord, inside]

theorem isWordStart_of_isWordPart
    (isPart : isWordPart char = true)
    (notDigit : char.isDigit = false) :
    isWordStart char = true := by
  simpa [isWordPart, isWordStart, Char.isAlphanum, notDigit] using isPart

/-- A converted word is a word. -/
theorem isWord_convert
    (style : NamingStyle)
    (isWord : IsWord name.toList) :
    IsWord (style.convert name).toList := by
  rcases style.convert_cases name with
      unchanged | ⟨first, word, words, wordsEq, bodyHead, convertEq⟩
  · rw [unchanged]
    exact isWord
  have allParts := all_isWordPart_of_isWord isWord
  have joinedParts :
      ∀ char ∈ style.joinWords ((first :: word) :: words), isWordPart char = true := by
    intro char member
    refine isWordPart_of_admits
      (admits_of_mem_joinWords (fun other isOther char inOther => ?_) member)
    exact NameWord.isAlphanum_of_mem_split allParts (wordsEq ▸ isOther) inOther
  have underscores : ∀ char ∈ name.toList.takeWhile (· == '_'), char = '_' := by
    intro char member
    simpa using List.all_eq_true.mp List.all_takeWhile char member
  rw [convertEq]
  cases underscoresEq : name.toList.takeWhile (· == '_') with
  | nil =>
      -- Without leading underscores the first character of the name leads the first word.
      obtain ⟨char, rest, nameEq, startsWord, -⟩ := isWord
      have bodyEq : name.toList.dropWhile (· == '_') = name.toList := by
        have whole : name.toList.takeWhile (· == '_') ++ name.toList.dropWhile (· == '_') =
            name.toList :=
          List.takeWhile_append_dropWhile
        rwa [underscoresEq, List.nil_append] at whole
      rw [bodyEq, nameEq] at bodyHead
      obtain rfl : char = first := Option.some.inj bodyHead
      obtain ⟨joinedRest, joinedEq⟩ := style.joinWords_cons char word words
      rw [joinedEq] at joinedParts ⊢
      refine ⟨_, joinedRest, rfl, ?_, ?_⟩
      · refine isWordStart_of_isWordPart (joinedParts _ List.mem_cons_self) ?_
        rw [isDigit_leads]
        cases isDigit : char.isDigit with
        | false => rfl
        | true => rw [Lexeme.isWordStart_of_isDigit isDigit] at startsWord; cases startsWord
      · exact List.all_eq_true.mpr fun other member =>
          joinedParts other (List.mem_cons_of_mem _ member)
  | cons underscore more =>
      rw [underscoresEq] at underscores
      rw [List.cons_append]
      refine ⟨underscore, _, rfl, ?_, ?_⟩
      · rw [underscores underscore List.mem_cons_self]
        rfl
      · rw [List.all_append, Bool.and_eq_true, List.all_eq_true, List.all_eq_true]
        refine ⟨fun char member => ?_, joinedParts⟩
        rw [underscores char (List.mem_cons_of_mem _ member)]
        rfl

/-- The name has a digit right after its leading underscores. -/
def leadsWithDigit (name : String) : Bool :=
  (name.toList.dropWhile (· == '_')).head?.any Char.isDigit

theorem isAlphanum_leads
    (isAlphanum : char.isAlphanum = true) :
    (style.leads char).isAlphanum = true := by
  cases style with
  | off => exact isAlphanum
  | titleCase | screamingSnakeCase =>
      exact Text.isAlphanum_of_isUpper_or_isDigit (Text.isUpper_or_isDigit_toUpper isAlphanum)
  | snakeCase | camelCase | lowerCase =>
      exact Text.isAlphanum_of_isLower_or_isDigit (Text.isLower_or_isDigit_toLower isAlphanum)

theorem not_contains_underscore
    {chars : List Char}
    (allAlphanum : ∀ char ∈ chars, char.isAlphanum = true) :
    (!chars.contains '_') = true := by
  have notMember : '_' ∉ chars := fun member => absurd (allAlphanum '_' member) (by decide)
  simpa using notMember

/-- The style asks for a letter as the first character of a name. -/
def asksForLetter : NamingStyle → Bool
  | .titleCase | .camelCase => true
  | _ => false

/--
A joined name follows the style, unless the style asks for a letter where the
first word has a digit.
-/
theorem checkBody_leads
    {first : Char}
    {rest : List Char}
    (isAlphanum : first.isAlphanum = true)
    (admitted : ∀ char ∈ style.leads first :: rest, style.admits char = true) :
    style.checkBody (style.leads first :: rest) = !(style.asksForLetter && first.isDigit) := by
  cases style with
  | off => rfl
  | snakeCase | screamingSnakeCase | lowerCase => exact List.all_eq_true.mpr admitted
  | titleCase =>
      have isEither := Text.isUpper_or_isDigit_toUpper isAlphanum
      show (first.toUpper.isUpper && _) = !first.isDigit
      rw [not_contains_underscore admitted, Bool.and_true, ← Text.isDigit_toUpper]
      cases isDigit : first.toUpper.isDigit with
      | false => simpa [isDigit] using isEither
      | true => exact Text.not_isUpper_of_isDigit isDigit
  | camelCase =>
      have isEither := Text.isLower_or_isDigit_toLower isAlphanum
      show (first.toLower.isLower && _) = !first.isDigit
      rw [not_contains_underscore admitted, Bool.and_true, ← Text.isDigit_toLower]
      cases isDigit : first.toLower.isDigit with
      | false => simpa [isDigit] using isEither
      | true => exact Text.not_isLower_of_isDigit isDigit

/--
A name that is changed by conversion follows the style afterwards, unless the
style asks for a letter where the name has a digit.
-/
theorem check_convert
    (isWord : IsWord name.toList)
    (changes : style.convert name ≠ name) :
    style.check (style.convert name) = true ∨
      (style.asksForLetter = true ∧ leadsWithDigit (style.convert name) = true) := by
  rcases style.convert_cases name with
      unchanged | ⟨first, word, words, wordsEq, bodyHead, convertEq⟩
  · exact (changes unchanged).elim
  have areWords : ∀ other ∈ (first :: word) :: words, ∀ char ∈ other, char.isAlphanum = true := by
    intro other isOther char inOther
    exact NameWord.isAlphanum_of_mem_split (all_isWordPart_of_isWord isWord)
      (wordsEq ▸ isOther) inOther
  have admitted : ∀ char ∈ style.joinWords ((first :: word) :: words), style.admits char = true :=
    fun _ => admits_of_mem_joinWords areWords
  obtain ⟨joinedRest, joinedEq⟩ := style.joinWords_cons first word words
  rw [joinedEq] at admitted convertEq
  have firstAlphanum := areWords _ List.mem_cons_self first List.mem_cons_self
  have notUnderscore : style.leads first ≠ '_' := by
    intro isUnderscore
    have leadsAlphanum : (style.leads first).isAlphanum = true := isAlphanum_leads firstAlphanum
    rw [isUnderscore] at leadsAlphanum
    cases leadsAlphanum
  have bodyEq :
      (style.convert name).toList.dropWhile (· == '_') = style.leads first :: joinedRest := by
    rw [convertEq, List.dropWhile_append_of_pos (List.all_eq_true.mp List.all_takeWhile),
      List.dropWhile_cons_of_neg (by simpa using notUnderscore)]
  rw [check, leadsWithDigit, bodyEq, checkBody_leads firstAlphanum admitted]
  show _ ∨ (_ ∧ (style.leads first).isDigit = true)
  rw [isDigit_leads]
  cases style.asksForLetter <;> cases first.isDigit <;> simp

end NamingStyle

end ZigLint
