namespace ZigLint.Text

/-!
# Letters and digits by code

The classes of ASCII characters are ranges of codes, and case conversion moves a
code from one range to another. Facts about single characters then reduce to
arithmetic.
-/

variable {char : Char}

theorem isUpper_iff_toNat : char.isUpper = true ↔ 65 ≤ char.toNat ∧ char.toNat ≤ 90 := by
  exact decide_eq_true_iff

theorem isLower_iff_toNat : char.isLower = true ↔ 97 ≤ char.toNat ∧ char.toNat ≤ 122 := by
  show (decide (97 ≤ char.toNat) && decide (char.toNat ≤ 122)) = true ↔ _
  rw [Bool.and_eq_true, decide_eq_true_iff, decide_eq_true_iff]

theorem isAlpha_iff : char.isAlpha = true ↔ char.isUpper = true ∨ char.isLower = true := by
  rw [← Bool.or_eq_true]
  rfl

/-- Lower case moves an upper-case letter by thirty-two and keeps every other character. -/
theorem toNat_toLower :
    char.toLower.toNat = if char.isUpper = true then char.toNat + 32 else char.toNat := by
  unfold Char.toLower
  split
  case isTrue isUpper =>
      have bounds : 65 ≤ char.toNat ∧ char.toNat ≤ 90 := isUpper
      rw [if_pos (isUpper_iff_toNat.mpr bounds)]
      show (char.val + 32).toNat = char.val.toNat + 32
      have : char.val.toNat ≤ 90 := bounds.2
      rw [UInt32.toNat_add]
      show (char.val.toNat + 32) % 2 ^ 32 = char.val.toNat + 32
      omega
  case isFalse notUpper =>
      rw [if_neg fun isUpper => notUpper (isUpper_iff_toNat.mp isUpper)]

/-- Upper case moves a lower-case letter by thirty-two and keeps every other character. -/
theorem toNat_toUpper :
    char.toUpper.toNat = if char.isLower = true then char.toNat - 32 else char.toNat := by
  unfold Char.toUpper
  split
  case isTrue isLower =>
      have bounds : 97 ≤ char.toNat ∧ char.toNat ≤ 122 := isLower
      rw [if_pos (isLower_iff_toNat.mpr bounds)]
      show (char.val + 4294967264).toNat = char.val.toNat - 32
      have : 97 ≤ char.val.toNat := bounds.1
      have : char.val.toNat ≤ 122 := bounds.2
      rw [UInt32.toNat_add]
      show (char.val.toNat + 4294967264) % 2 ^ 32 = char.val.toNat - 32
      omega
  case isFalse notLower =>
      rw [if_neg fun isLower => notLower (isLower_iff_toNat.mp isLower)]

end ZigLint.Text
