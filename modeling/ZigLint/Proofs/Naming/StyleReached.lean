import ZigLint.Proofs.Naming.Letters

namespace ZigLint.NamingStyle

/-!
# Conversion reaches the style

`check` and `convert` know nothing of each other. What brings them together is
the first character behind the leading underscores: conversion gives it the case
of the style, or leaves it alone because it is a digit. All characters after it
are those that the style admits.
-/

open Lexeme (IsWord)

variable {style : NamingStyle} {name : String}

theorem checkBody_nil : style.checkBody [] = true := by
  cases style <;> rfl

theorem asksForLetter_iff :
    style.asksForLetter = true ↔ style = .titleCase ∨ style = .camelCase := by
  cases style <;> simp [asksForLetter]

/-- Behind its leading underscores a converted name follows the style, or it has a digit there. -/
theorem check_convert_of_ne_off
    (notOff : style ≠ .off)
    (isWord : IsWord name.toList) :
    style.check (style.convert name) = !(style.asksForLetter && leadsWithDigit name) := by
  rw [check, dropWhile_convert notOff, leadsWithDigit]
  cases bodyEq : name.toList.dropWhile (· == '_') with
  | nil =>
      have noWords : NameWord.split name.toList = [] := by
        rw [← NameWord.split_dropWhile, bodyEq]
        rfl
      rw [noWords, joinWords_nil, checkBody_nil]
      simp
  | cons first body =>
      obtain ⟨word, words, wordsEq⟩ := NameWord.split_of_body bodyEq
      have areWords :
          ∀ other ∈ (first :: word) :: words, ∀ char ∈ other, char.isAlphanum = true := by
        intro other isOther char inOther
        exact NameWord.isAlphanum_of_mem_split (all_isWordPart_of_isWord isWord)
          (wordsEq ▸ isOther) inOther
      obtain ⟨rest, joinedEq⟩ := style.joinWords_cons first word words
      rw [wordsEq, joinedEq]
      refine checkBody_leads (areWords _ List.mem_cons_self first List.mem_cons_self) ?_
      rw [← joinedEq]
      exact fun char member => admits_of_mem_joinWords areWords member

/--
A converted name follows the style, except where the style asks for a letter
first and the name has a digit behind its leading underscores.
-/
theorem check_convert_eq_false_iff
    (style : NamingStyle)
    (isWord : IsWord name.toList) :
    style.check (style.convert name) = false ↔
      (style = .titleCase ∨ style = .camelCase) ∧ leadsWithDigit name = true := by
  by_cases isOff : style = .off
  · subst isOff
    have follows : NamingStyle.off.check (NamingStyle.off.convert name) = true := rfl
    rw [follows]
    simp
  · rw [check_convert_of_ne_off isOff isWord, ← asksForLetter_iff, Bool.not_eq_false',
      Bool.and_eq_true]

/-- A name that starts with a digit behind its underscore cannot be brought to title case. -/
theorem check_convert_eq_false_iff_digit :
    IsWord "_2_fast".toList ∧
      NamingStyle.titleCase.convert "_2_fast" = "_2Fast" ∧
        NamingStyle.titleCase.check (NamingStyle.titleCase.convert "_2_fast") = false := by
  have isWord : IsWord "_2_fast".toList := ⟨'_', "2_fast".toList, by decide, by decide, by decide⟩
  exact ⟨isWord, by decide, (check_convert_eq_false_iff .titleCase isWord).mpr
    ⟨.inl rfl, by decide⟩⟩

end ZigLint.NamingStyle
