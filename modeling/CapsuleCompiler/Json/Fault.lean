import CapsuleCompiler.Json.Printer
import CapsuleCompiler.Text.Quoted

/-!
# Json.Fault — why a text is not the document it should be

The faults of the syntax come first, then those of a document that is JSON but has the wrong form. `message`
is the wording; a place in the text belongs to no fault.
-/

namespace CapsuleCompiler.Json

/-- What stands where something else was wanted. -/
inductive Found
  | null
  | bool (b : Bool)
  | integer (n : Int)
  | float (negative : Bool) (magnitude : Decimal.Binary64)
  | string (s : String)
  | sequence
  | map
  | unitVariant

def Found.describe : Found → String
  | null => "null"
  | bool b => "boolean `" ++ (if b then "true" else "false") ++ "`"
  | integer n => "integer `" ++ .ofList (integerChars n) ++ "`"
  | float negative magnitude => "floating point `" ++ .ofList (floatChars negative magnitude) ++ "`"
  | string s => "string " ++ Text.quoted s
  | sequence => "sequence"
  | map => "map"
  | unitVariant => "unit variant"

inductive Fault
  | eofValue
  | eofList
  | eofObject
  | eofString
  | expectedColon
  | expectedListCommaOrEnd
  | expectedObjectCommaOrEnd
  | expectedValue
  | expectedIdent
  | keyNotString
  | trailingComma
  | trailingCharacters
  | invalidNumber
  | numberOutOfRange
  | invalidEscape
  | controlCharacter
  | unfinishedSurrogate
  | loneSurrogate
  | tooDeep
  | invalidType (found : Found) (wanted : String)
  | invalidValue (found : Found) (wanted : String)
  | invalidLength (index : Nat) (record : String) (fields : Nat)
  | missingField (name : String)
  | duplicateField (name : String)
  | unknownVariant (name : String) (known : List String)

namespace Fault

def ticked (name : String) : String := "`" ++ name ++ "`"

/-- Two names are joined by `or`, more are listed behind `one of`. -/
def alternatives : List String → String
  | [] => "nothing"
  | [a] => ticked a
  | [a, b] => ticked a ++ " or " ++ ticked b
  | names => "one of " ++ ", ".intercalate (names.map ticked)

def countOf (n : Nat) : String := toString n ++ (if n = 1 then " element" else " elements")

def message : Fault → String
  | eofValue => "EOF while parsing a value"
  | eofList => "EOF while parsing a list"
  | eofObject => "EOF while parsing an object"
  | eofString => "EOF while parsing a string"
  | expectedColon => "expected `:`"
  | expectedListCommaOrEnd => "expected `,` or `]`"
  | expectedObjectCommaOrEnd => "expected `,` or `\x7d`"
  | expectedValue => "expected value"
  | expectedIdent => "expected ident"
  | keyNotString => "key must be a string"
  | trailingComma => "trailing comma"
  | trailingCharacters => "trailing characters"
  | invalidNumber => "invalid number"
  | numberOutOfRange => "number out of range"
  | invalidEscape => "invalid escape"
  | controlCharacter => "control character (\\u0000-\\u001F) found while parsing a string"
  | unfinishedSurrogate => "unexpected end of hex escape"
  | loneSurrogate => "lone leading surrogate in hex escape"
  | tooDeep => "recursion limit exceeded"
  | invalidType found wanted => "invalid type: " ++ found.describe ++ ", expected " ++ wanted
  | invalidValue found wanted => "invalid value: " ++ found.describe ++ ", expected " ++ wanted
  | invalidLength index record fields =>
    "invalid length " ++ toString index ++ ", expected struct " ++ record ++ " with " ++ countOf fields
  | missingField name => "missing field " ++ ticked name
  | duplicateField name => "duplicate field " ++ ticked name
  | unknownVariant name known =>
    "unknown variant " ++ ticked name ++ ", expected " ++ alternatives known

end Fault

end CapsuleCompiler.Json
