import CapsuleCompiler.Dict
import CapsuleCompiler.Port

/-!
# Capsule — a capsule as its author defines it
-/

namespace CapsuleCompiler

/-- The ports of a capsule, in the order of their declaration. -/
structure DeclaredPorts where
  inputs : List PortSpec
  outputs : List PortSpec
deriving Inhabited

def DeclaredPorts.none : DeclaredPorts := ⟨[], []⟩

structure CapsuleDefinition where
  id : CapsuleId
  /-- The name that is shown to people. -/
  name : String
  category : String
  /-- The source of the component. -/
  source : String
  ports : DeclaredPorts
  version : Option String
  /-- Third-party packages with the versions that will do. -/
  packages : Dict String
deriving Inhabited

namespace CapsuleDefinition

/-- The first input of a name. -/
def input? (d : CapsuleDefinition) (name : String) : Option PortSpec :=
  d.ports.inputs.find? (·.name == name)

/-- The first output of a name. -/
def output? (d : CapsuleDefinition) (name : String) : Option PortSpec :=
  d.ports.outputs.find? (·.name == name)

end CapsuleDefinition

end CapsuleCompiler
