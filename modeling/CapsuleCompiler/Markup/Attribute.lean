import CapsuleCompiler.Json.Printer
import CapsuleCompiler.Port

/-!
# Markup.Attribute — values of the props of an element

A prop is written as quoted text or as an expression in braces. A text goes between quotes when no character of
it would end or bend the quoted form; every other value is the JSON of itself in braces. An input that must be
fed and is not gets a stand-in of its type.
-/

namespace CapsuleCompiler.Markup

inductive Attribute
  | quoted (text : String)
  | literal (value : Json)
  /-- A variable in scope. -/
  | reference (name : String)
  /-- A function that does nothing. -/
  | idle
deriving Inhabited

/-- The characters that keep a text from standing between quotes. -/
def isUnquotable (c : Char) : Bool :=
  ['"', '\\', '\n', '\r', '{', '}', '<', '>'].contains c

namespace Attribute

def inBraces (s : String) : String := "\x7b" ++ s ++ "\x7d"

def text : Attribute → String
  | quoted s => "\"" ++ s ++ "\""
  | literal x => inBraces x.text
  | reference name => inBraces name
  | idle => inBraces "() => \x7b\x7d"

/-- The attribute of a literal value. -/
def ofJson : Json → Attribute
  | .string s => if s.toList.any isUnquotable then literal (.string s) else quoted s
  | x => literal x

/-- The stand-in for a value of a type. -/
def placeholder : PortType → Attribute
  | .string => ofJson (.string "example")
  | .number => ofJson (.integer 0)
  | .boolean => ofJson (.bool true)
  | .array => ofJson (.array [])
  | .object => ofJson (.object [])
  | .function => idle
  | .any => ofJson .null

end Attribute

end CapsuleCompiler.Markup
