/-!
# Markup.Escape — text between the tags of an element

The characters that markup gives a meaning are written as character references: the ampersand, the angle brackets
and the braces. No other character changes.
-/

namespace CapsuleCompiler.Markup

def escapeChar (c : Char) : List Char :=
  if c = '&' then "&amp;".toList
  else if c = '<' then "&lt;".toList
  else if c = '>' then "&gt;".toList
  else if c = '{' then "&#123;".toList
  else if c = '}' then "&#125;".toList
  else [c]

def escape (cs : List Char) : List Char := cs.flatMap escapeChar

end CapsuleCompiler.Markup
