import CapsuleCompiler.Ident

/-!
# Port — what a capsule takes and gives

A port has a name and a declared type. `any` is the type of a port that says nothing about its values, and the
type behind every name that this program does not know.
-/

namespace CapsuleCompiler

inductive PortType
  | string
  | number
  | boolean
  | array
  | object
  | function
  | any
deriving DecidableEq, Inhabited

namespace PortType

def name : PortType → String
  | string => "string"
  | number => "number"
  | boolean => "boolean"
  | array => "array"
  | object => "object"
  | function => "function"
  | any => "any"

def all : List PortType := [string, number, boolean, array, object, function, any]

/-- Whether values may flow from one type to the other. -/
def compatible (source target : PortType) : Bool :=
  source == target || source == any || target == any

end PortType

/-- A declared input or output. -/
structure PortSpec where
  name : String
  type : PortType
  required : Bool
  description : Option String
deriving DecidableEq, Inhabited

/-- A port of a placed instance. -/
structure PortRef where
  owner : InstanceId
  port : String
deriving DecidableEq, Inhabited

def PortRef.text (ref : PortRef) : String := ref.owner.text ++ "." ++ ref.port

end CapsuleCompiler
