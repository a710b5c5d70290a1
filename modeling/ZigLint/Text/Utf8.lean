namespace ZigLint.Text.Utf8

/-!
# Bytes read as text

In UTF-8 a character is a lead byte with up to three further bytes, and the lead
byte fixes the ranges in which they lie. `decode` reads any list of bytes: the
longest start of a character that is not followed by the rest of it becomes one
replacement character, and so does a byte that starts no character.

Main statement: what is left after the further bytes is no longer than before,
so reading comes to an end.
-/

/-- What a lead byte says: the first digits of the code, and the ranges of the further bytes. -/
structure Lead where
  digits : Nat
  ranges : List (Nat × Nat)
  deriving Repr, DecidableEq

namespace Lead

/-- The range of a further byte after most lead bytes. -/
def tail : Nat × Nat := (0x80, 0xBF)

/--
What a byte says as a lead byte.

The narrow ranges after four of the lead bytes leave out codes that have a
shorter encoding, codes of surrogates and codes past the last character.
-/
def ofByte? (byte : UInt8) : Option Lead :=
  let code := byte.toNat
  if code < 0x80 then
    some { digits := code, ranges := [] }
  else if code < 0xC2 then
    none
  else if code < 0xE0 then
    some { digits := code - 0xC0, ranges := [tail] }
  else if code = 0xE0 then
    some { digits := 0x0, ranges := [(0xA0, 0xBF), tail] }
  else if code = 0xED then
    some { digits := 0xD, ranges := [(0x80, 0x9F), tail] }
  else if code < 0xF0 then
    some { digits := code - 0xE0, ranges := [tail, tail] }
  else if code = 0xF0 then
    some { digits := 0x0, ranges := [(0x90, 0xBF), tail, tail] }
  else if code < 0xF4 then
    some { digits := code - 0xF0, ranges := [tail, tail, tail] }
  else if code = 0xF4 then
    some { digits := 0x4, ranges := [(0x80, 0x8F), tail, tail] }
  else
    none

end Lead

/--
Read one further byte for each range, and add their digits to a code.

The code is `none` when a byte is missing or out of its range; that byte is not
read then.
-/
def further (code : Nat) : List (Nat × Nat) → List UInt8 → Option Nat × List UInt8
  | [], bytes => (some code, bytes)
  | _ :: _, [] => (none, [])
  | (low, high) :: ranges, byte :: rest =>
      if low ≤ byte.toNat ∧ byte.toNat ≤ high then
        further (code * 0x40 + byte.toNat % 0x40) ranges rest
      else
        (none, byte :: rest)

/-- Reading further bytes never lengthens what is left. -/
theorem length_further_le (code : Nat) (ranges : List (Nat × Nat)) (bytes : List UInt8) :
    (further code ranges bytes).2.length ≤ bytes.length := by
  fun_induction further code ranges bytes with
  | case1 => exact Nat.le_refl _
  | case2 => exact Nat.le_refl _
  | case3 _ _ _ _ _ _ _ induction => exact Nat.le_succ_of_le induction
  | case4 => exact Nat.le_refl _

/-- The character that stands for bytes that are none. -/
def replacement : Char := '\ufffd'

/-- The text that bytes encode, with replacements where they encode none. -/
def decode : List UInt8 → List Char
  | [] => []
  | byte :: rest =>
      match Lead.ofByte? byte with
      | none => replacement :: decode rest
      | some lead =>
          let code? := (further lead.digits lead.ranges rest).1
          (code?.map Char.ofNat).getD replacement
            :: decode (further lead.digits lead.ranges rest).2
  termination_by bytes => bytes.length
  decreasing_by
    · exact Nat.lt_succ_self _
    · exact Nat.lt_succ_of_le (length_further_le lead.digits lead.ranges rest)

end ZigLint.Text.Utf8
