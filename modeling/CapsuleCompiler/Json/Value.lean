import CapsuleCompiler.Decimal.Binary64
import CapsuleCompiler.Dict

/-!
# Json.Value — the values of a JSON document

A number is an integer or a binary64 magnitude with its sign, as it was read: an integer never equals a float.
Members of an object stand in the order in which they are to be printed.
-/

namespace CapsuleCompiler

inductive Json
  | null
  | bool (b : Bool)
  | integer (n : Int)
  | float (negative : Bool) (magnitude : Decimal.Binary64)
  | string (s : String)
  | array (items : List Json)
  | object (members : List (String × Json))
deriving Inhabited

namespace Json

/-- An array of texts. -/
def strings (xs : List String) : Json := array (xs.map string)

/-- An object whose members are the entries of a dictionary. -/
def ofDict (f : α → Json) (d : Dict α) : Json := object (d.entries.map fun e => (e.1, f e.2))

/-- The member of a key, of an object only. -/
def field? (key : String) : Json → Option Json
  | object members => members.lookup key
  | _ => none

end Json

end CapsuleCompiler
