import ZigLint.Text.Unprinted

namespace ZigLint.Text

/-!
# Quoted text

A text in double quotes with the characters escaped that a listing cannot show
as they are.
-/

/-- A number in lower-case hexadecimal digits. -/
def hexText (number : Nat) : String :=
  String.ofList (Nat.toDigits 16 number)

/-- A character as it stands inside double quotes. -/
def quoteChar (char : Char) : String :=
  if char = '"' then "\\\""
  else if char = '\\' then "\\\\"
  else if char = '\n' then "\\n"
  else if char = '\r' then "\\r"
  else if char = '\t' then "\\t"
  else if char.toNat = 0 then "\\0"
  else if isUnprinted char then "\\u\x7b" ++ hexText char.toNat ++ "\x7d"
  else char.toString

/-- A text in double quotes. -/
def quoted (text : String) : String :=
  "\"" ++ String.join (text.toList.map quoteChar) ++ "\""

end ZigLint.Text
