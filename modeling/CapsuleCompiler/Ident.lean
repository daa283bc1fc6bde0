import CapsuleCompiler.Naming

/-!
# Ident — names of capsules and of their instances

A capsule id is taken as written; the ids that references name come from path segments and are in kebab
form by construction. An id is canonical when it is a non-empty fixed point of the kebab form.
-/

namespace CapsuleCompiler

/-- The name under which a catalog knows a capsule. -/
structure CapsuleId where
  text : String
deriving DecidableEq, Inhabited

/-- The name of one placed instance inside a composition. -/
structure InstanceId where
  text : String
deriving DecidableEq, Inhabited

namespace CapsuleId

def ofSegment (segment : String) : CapsuleId := ⟨Naming.kebab segment⟩

def isCanonicalChar (c : Char) : Bool := c.isLower || c.isDigit || c == '-'

def isCanonical (id : CapsuleId) : Bool :=
  !id.text.isEmpty && id.text.toList.all isCanonicalChar && Naming.kebab id.text == id.text

/-- The component symbol under which generated code imports the capsule. -/
def symbol (id : CapsuleId) : String := Naming.pascal id.text

/-- Ids that stand behind each other in a reference chain. -/
def chain (ids : List CapsuleId) : String := " -> ".intercalate (ids.map text)

end CapsuleId

end CapsuleCompiler
