/-
Text quoted for a message: quotes and backslashes are escaped, and characters without a visible form are written
by name or by their code, so that a message shows every character of what was typed.
-/
import CompactSearch.Text.Visible

namespace CompactSearch.Text

/-- The lower-case hexadecimal digits of a number, without padding. -/
def hex (n : Nat) : String := String.ofList (Nat.toDigits 16 n)

/-- A character inside quotes of the kind `quote`; the other kind of quote stands for itself. -/
def quotedForm (quote c : Char) : String :=
  if c = '\t' then "\\t"
  else if c = '\n' then "\\n"
  else if c = '\r' then "\\r"
  else if c = '\x00' then "\\0"
  else if c = '\\' ∨ c = quote then String.ofList ['\\', c]
  else if isVisible c then c.toString
  else "\\u\x7b" ++ hex c.toNat ++ "\x7d"

/-- A text in double quotes. -/
def quoted (s : String) : String := "\"" ++ String.join (s.toList.map (quotedForm '"')) ++ "\""

/-- A character in single quotes. -/
def quotedChar (c : Char) : String := "'" ++ quotedForm '\'' c ++ "'"

end CompactSearch.Text
