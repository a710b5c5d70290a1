import ZigLint.Proofs.Naming.Convert

namespace ZigLint

/-!
# What conversion keeps

The words of a name are its stretches between underscores, cut where the case
changes. No word is empty, none holds an underscore, and in order they are the
whole name without its underscores. Joining them inserts nothing but underscores
and changes nothing but the case of letters, and no style joins words to a text
that starts with an underscore. So a converted name has the leading underscores
of the name and, apart from the case, its other characters in their order.
-/

namespace Text

variable {char : Char}

theorem toLower_toLower : char.toLower.toLower = char.toLower := by
  rw [← Char.toNat_inj]
  simp only [toNat_toLower, isUpper_iff_toNat]
  grind

theorem toLower_toUpper : char.toUpper.toLower = char.toLower := by
  rw [← Char.toNat_inj]
  simp only [toNat_toLower, toNat_toUpper, isUpper_iff_toNat, isLower_iff_toNat]
  grind

theorem toLower_eq_underscore_iff : char.toLower = '_' ↔ char = '_' := by
  rw [← Char.toNat_inj, ← Char.toNat_inj]
  simp only [toNat_toLower, isUpper_iff_toNat, Char.reduceToNat]
  split <;> omega

theorem toUpper_eq_underscore_iff : char.toUpper = '_' ↔ char = '_' := by
  rw [← Char.toNat_inj, ← Char.toNat_inj]
  simp only [toNat_toUpper, isLower_iff_toNat, Char.reduceToNat]
  split <;> omega

end Text

namespace NameWord

/-- A text without its underscores, in lower case. -/
def letters (chars : List Char) : List Char :=
  lower (chars.filter (· != '_'))

variable {chars other word : List Char} {words : List (List Char)}

@[simp]
theorem letters_append : letters (chars ++ other) = letters chars ++ letters other := by
  simp [letters, lower]

@[simp]
theorem letters_filter : letters (chars.filter (· != '_')) = letters chars := by
  simp [letters]

theorem letters_eq_nil
    (underscores : ∀ char ∈ chars, char = '_') :
    letters chars = [] := by
  simpa [letters, lower] using underscores

/-- Changing characters without making or removing underscores or letters keeps the letters. -/
theorem letters_map
    {change : Char → Char}
    (keepsUnderscores : ∀ char, change char = '_' ↔ char = '_')
    (keepsLetters : ∀ char, (change char).toLower = char.toLower) :
    letters (chars.map change) = letters chars := by
  have keeps : ((· != '_') ∘ change) = (· != '_') := by
    funext char
    rw [Function.comp_apply, Bool.eq_iff_iff]
    simp [keepsUnderscores]
  rw [letters, letters, List.filter_map, keeps, lower, lower, List.map_map]
  exact List.map_congr_left fun char _ => keepsLetters char

@[simp]
theorem letters_lower : letters (lower word) = letters word :=
  letters_map (fun _ => Text.toLower_eq_underscore_iff) (fun _ => Text.toLower_toLower)

@[simp]
theorem letters_upper : letters (upper word) = letters word :=
  letters_map (fun _ => Text.toUpper_eq_underscore_iff) (fun _ => Text.toLower_toUpper)

@[simp]
theorem letters_capitalize : letters (capitalize word) = letters word := by
  cases word with
  | nil => rfl
  | cons first rest =>
      calc letters (first.toUpper :: lower rest)
          = letters (upper [first] ++ lower rest) := rfl
        _ = letters ([first] ++ rest) := by simp only [letters_append, letters_upper, letters_lower]

/-- Words that are changed one by one without changing their letters have the letters they had. -/
theorem letters_flatten_map
    {change : List Char → List Char}
    (keeps : ∀ word, letters (change word) = letters word) :
    letters (words.map change).flatten = letters words.flatten := by
  induction words with
  | nil => rfl
  | cons word rest inductionHypothesis =>
      rw [List.map_cons, List.flatten_cons, List.flatten_cons, letters_append, letters_append,
        keeps, inductionHypothesis]

/-- Underscores between words are no letters. -/
theorem letters_intercalate : letters (['_'].intercalate words) = letters words.flatten := by
  induction words with
  | nil => rfl
  | cons word rest inductionHypothesis =>
      cases rest with
      | nil => simp [List.intercalate]
      | cons next more =>
          have separator : letters ['_'] = [] := rfl
          rw [List.intercalate_cons_cons, letters_append, letters_append, separator,
            inductionHypothesis, List.flatten_cons (l := word), letters_append, List.append_nil]

/-- Joining words keeps their letters, whatever the style. -/
theorem letters_joinWords
    (style : NamingStyle) :
    letters (style.joinWords words) = letters words.flatten := by
  cases style with
  | off => rfl
  | snakeCase =>
      rw [NamingStyle.joinWords, letters_intercalate, letters_flatten_map fun _ => letters_lower]
  | screamingSnakeCase =>
      rw [NamingStyle.joinWords, letters_intercalate, letters_flatten_map fun _ => letters_upper]
  | lowerCase => exact letters_flatten_map fun _ => letters_lower
  | titleCase => exact letters_flatten_map fun _ => letters_capitalize
  | camelCase =>
      cases words with
      | nil => rfl
      | cons first rest =>
          rw [NamingStyle.joinWords, letters_append, letters_lower,
            letters_flatten_map fun _ => letters_capitalize, List.flatten_cons, letters_append]

/-- Cutting a part where the case changes leaves no empty word. -/
theorem ne_nil_of_mem_splitCase
    (isWord : word ∈ splitCase chars) :
    word ≠ [] := by
  induction chars generalizing word with
  | nil => cases isWord
  | cons previous rest inductionHypothesis =>
      cases rest with
      | nil =>
          obtain rfl := List.mem_singleton.mp isWord
          exact List.cons_ne_nil _ _
      | cons char after =>
          obtain ⟨next, words, wordsEq⟩ := splitCase_cons char after
          rw [wordsEq] at inductionHypothesis
          rw [splitCase, wordsEq] at isWord
          split at isWord
          · rcases List.mem_cons.mp isWord with rfl | isLater
            · exact List.cons_ne_nil _ _
            · exact inductionHypothesis isLater
          · rcases List.mem_cons.mp isWord with rfl | isLater
            · exact List.cons_ne_nil _ _
            · exact inductionHypothesis (List.mem_cons_of_mem _ isLater)

theorem ne_nil_of_mem_split
    (isWord : word ∈ split chars) :
    word ≠ [] := by
  obtain ⟨part, -, inPart⟩ := List.mem_flatMap.mp isWord
  exact ne_nil_of_mem_splitCase inPart

theorem ne_underscore_of_mem_split
    {char : Char}
    (isWord : word ∈ split chars)
    (member : char ∈ word) :
    char ≠ '_' := by
  have inName : char ∈ chars.filter (· != '_') :=
    flatten_split chars ▸ List.mem_flatten_of_mem isWord member
  simpa using (List.mem_filter.mp inName).2

end NameWord

namespace NamingStyle

variable {style : NamingStyle} {name : String}

theorem joinWords_nil : style.joinWords [] = [] := by
  cases style <;> rfl

theorem leads_ne_underscore
    {char : Char}
    (notUnderscore : char ≠ '_') :
    style.leads char ≠ '_' := by
  cases style with
  | off => exact notUnderscore
  | titleCase | screamingSnakeCase => exact mt Text.toUpper_eq_underscore_iff.mp notUnderscore
  | snakeCase | camelCase | lowerCase => exact mt Text.toLower_eq_underscore_iff.mp notUnderscore

/-- What is joined from the words of a name does not start with an underscore. -/
theorem joinWords_split_stops
    (style : NamingStyle)
    (chars : List Char) :
    ∀ char, (style.joinWords (NameWord.split chars)).head? = some char → (char == '_') = false := by
  intro char isFirst
  cases wordsEq : NameWord.split chars with
  | nil =>
      rw [wordsEq, joinWords_nil] at isFirst
      cases isFirst
  | cons word words =>
      have isWord : word ∈ NameWord.split chars := wordsEq ▸ List.mem_cons_self
      cases word with
      | nil => exact (NameWord.ne_nil_of_mem_split isWord rfl).elim
      | cons first rest =>
          obtain ⟨joinedRest, joinedEq⟩ := style.joinWords_cons first rest words
          rw [wordsEq, joinedEq] at isFirst
          obtain rfl : style.leads first = char := Option.some.inj isFirst
          have notUnderscore := NameWord.ne_underscore_of_mem_split isWord List.mem_cons_self
          simpa using leads_ne_underscore notUnderscore

/-- A style that converts keeps the leading underscores and joins the words behind them. -/
theorem toList_convert
    (notOff : style ≠ .off) :
    (style.convert name).toList =
      name.toList.takeWhile (· == '_') ++ style.joinWords (NameWord.split name.toList) := by
  by_cases unchanged : style = .off ∨ (NameWord.split name.toList).isEmpty = true
  · have noWords := List.isEmpty_iff.mp (unchanged.resolve_left notOff)
    have convertEq : style.convert name = name := if_pos unchanged
    have noBody : name.toList.dropWhile (· == '_') = [] := by
      cases bodyEq : name.toList.dropWhile (· == '_') with
      | nil => rfl
      | cons first body =>
          obtain ⟨word, words, wordsEq⟩ := NameWord.split_of_body bodyEq
          rw [noWords] at wordsEq
          cases wordsEq
    have whole : name.toList.takeWhile (· == '_') ++ name.toList.dropWhile (· == '_') =
        name.toList :=
      List.takeWhile_append_dropWhile
    rw [convertEq, noWords, joinWords_nil, ← noBody, whole]
  · exact (congrArg String.toList (if_neg unchanged)).trans String.toList_ofList

/-- Conversion neither adds nor removes leading underscores. -/
theorem takeWhile_convert :
    (style.convert name).toList.takeWhile (· == '_') = name.toList.takeWhile (· == '_') := by
  by_cases isOff : style = .off
  · rw [isOff, convert, if_pos (.inl rfl)]
  · rw [toList_convert isOff]
    exact Text.takeWhile_append List.all_takeWhile (joinWords_split_stops style _)

/-- After the leading underscores a converted name is what its words are joined to. -/
theorem dropWhile_convert
    (notOff : style ≠ .off) :
    (style.convert name).toList.dropWhile (· == '_') =
      style.joinWords (NameWord.split name.toList) := by
  rw [toList_convert notOff]
  exact Text.dropWhile_append List.all_takeWhile (joinWords_split_stops style _)

/--
Conversion loses nothing but underscores and case.

The words of a name are non-empty, hold no underscores and make up the name
without its underscores. A converted name starts with exactly the leading
underscores of the name, and has the same letters.
-/
theorem convert_keeps
    (style : NamingStyle)
    (name : String) :
    (∀ word ∈ NameWord.split name.toList, word ≠ [] ∧ '_' ∉ word) ∧
      (NameWord.split name.toList).flatten = name.toList.filter (· != '_') ∧
        (style.convert name).toList.takeWhile (· == '_') = name.toList.takeWhile (· == '_') ∧
          NameWord.letters (style.convert name).toList = NameWord.letters name.toList := by
  refine ⟨fun word isWord => ?_, NameWord.flatten_split _, takeWhile_convert, ?_⟩
  · exact ⟨NameWord.ne_nil_of_mem_split isWord,
      fun member => NameWord.ne_underscore_of_mem_split isWord member rfl⟩
  by_cases isOff : style = .off
  · rw [isOff, convert, if_pos (.inl rfl)]
  · have underscores : ∀ char ∈ name.toList.takeWhile (· == '_'), char = '_' := by
      intro char member
      simpa using List.all_eq_true.mp List.all_takeWhile char member
    calc NameWord.letters (style.convert name).toList
        = NameWord.letters (style.joinWords (NameWord.split name.toList)) := by
          rw [toList_convert isOff, NameWord.letters_append, NameWord.letters_eq_nil underscores,
            List.nil_append]
      _ = NameWord.letters (NameWord.split name.toList).flatten := NameWord.letters_joinWords style
      _ = NameWord.letters name.toList := by rw [NameWord.flatten_split, NameWord.letters_filter]

end NamingStyle

end ZigLint
