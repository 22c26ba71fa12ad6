import Injection.Text.Hidden

/-!
# Quoted text

Text between double quotes, in which every character that could be mistaken or would not be seen
is replaced by an escape. Letters of all scripts stand for themselves; characters that would not be
seen are written by their code.
-/

namespace Injection.Text

/-- The digits of a number to base sixteen, in lower case. -/
def hexadecimal (n : Nat) : String := String.ofList (Nat.toDigits 16 n)

/-- How one character is written between quotes. -/
def escape (c : Char) : String :=
  if c = '"' then "\\\""
  else if c = '\\' then "\\\\"
  else if c = '\n' then "\\n"
  else if c = '\r' then "\\r"
  else if c = '\t' then "\\t"
  else if c.toNat = 0 then "\\0"
  else if isHidden c then "\\u\x7b" ++ hexadecimal c.toNat ++ "\x7d"
  else c.toString

/-- Text between quotes. -/
def quoted (text : String) : String :=
  "\"" ++ String.join (text.toList.map escape) ++ "\""

end Injection.Text
