import CapsuleCompiler.Text.Visible

/-!
# Text.Quoted — a text between quotes, safe to show in a message

Quote and backslash are written behind a backslash, the common control characters by their letters, and
whatever else would not be seen by its number in hexadecimal.
-/

namespace CapsuleCompiler.Text

/-- A character by its number: backslash, `u` and the lower case digits in braces. -/
def numbered (c : Char) : List Char := ['\\', 'u', '{'] ++ Nat.toDigits 16 c.toNat ++ ['}']

def quotedChar (c : Char) : List Char :=
  if c = '"' then ['\\', '"']
  else if c = '\\' then ['\\', '\\']
  else if c = '\n' then ['\\', 'n']
  else if c = '\r' then ['\\', 'r']
  else if c = '\t' then ['\\', 't']
  else if c = '\x00' then ['\\', '0']
  else if isVisible c then [c]
  else numbered c

def quoted (s : String) : String := .ofList ('"' :: s.toList.flatMap quotedChar ++ ['"'])

end CapsuleCompiler.Text
