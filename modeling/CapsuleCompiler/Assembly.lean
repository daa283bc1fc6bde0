import CapsuleCompiler.Capsule
import CapsuleCompiler.Composition
import CapsuleCompiler.Error

/-!
# Assembly — putting compositions and capsules together step by step

A composition under assembly keeps its bindings apart from its nodes, so that a binding may come before the node
it belongs to. `build` refuses a repeated instance id, then a binding whose instance was never placed; it
knows no catalog and so does not look at ports.
-/

namespace CapsuleCompiler

structure CompositionDraft where
  name : String
  description : Option String
  nodes : List Node
  /-- Instance, port and value of each binding in the order in which they were given. -/
  bindings : List (InstanceId × String × Binding)
  connections : List Connection
deriving Inhabited

namespace CompositionDraft

def named (name : String) : CompositionDraft := ⟨name, none, [], [], []⟩

def describe (d : CompositionDraft) (text : String) : CompositionDraft :=
  { d with description := some text }

def place (d : CompositionDraft) (id : InstanceId) (capsule : CapsuleId) : CompositionDraft :=
  { d with nodes := d.nodes ++ [⟨id, capsule, .empty⟩] }

def bind (d : CompositionDraft) (id : InstanceId) (port : String) (binding : Binding) :
    CompositionDraft :=
  { d with bindings := d.bindings ++ [(id, port, binding)] }

def connect (d : CompositionDraft) (source target : PortRef) : CompositionDraft :=
  { d with connections := d.connections ++ [⟨source, target⟩] }

/-- Gives the binding to the first node of its instance. -/
def attach (id : InstanceId) (port : String) (binding : Binding) :
    List Node → Except CompositionFault (List Node)
  | [] => .error (.strayBinding port id)
  | n :: ns =>
    if n.id = id then .ok ({ n with bindings := n.bindings.insert port binding } :: ns)
    else (attach id port binding ns).map (n :: ·)

def attachAll (nodes : List Node) :
    List (InstanceId × String × Binding) → Except CompositionFault (List Node)
  | [] => .ok nodes
  | (id, port, binding) :: rest => do attachAll (← attach id port binding nodes) rest

def assemble (d : CompositionDraft) : Except CompositionFault Composition :=
  match firstRepeated? [] (d.nodes.map (·.id)) with
  | some id => .error (.repeatedInstance id)
  | none => do return ⟨d.name, d.description, ← attachAll d.nodes d.bindings, d.connections⟩

def build (d : CompositionDraft) : Except CompileError Composition :=
  d.assemble.mapError .invalidComposition

end CompositionDraft

structure CapsuleDraft where
  id : CapsuleId
  /-- The component symbol stands in for a name that is not given. -/
  name : Option String
  category : String
  source : String
  ports : DeclaredPorts
  version : Option String
  packages : Dict String
deriving Inhabited

namespace CapsuleDraft

def ofId (id : CapsuleId) : CapsuleDraft := ⟨id, none, "", "", .none, none, .empty⟩

def addInput (d : CapsuleDraft) (name : String) (type : PortType) (required : Bool) :
    CapsuleDraft :=
  { d with ports.inputs := d.ports.inputs ++ [⟨name, type, required, none⟩] }

def addOutput (d : CapsuleDraft) (name : String) (type : PortType) : CapsuleDraft :=
  { d with ports.outputs := d.ports.outputs ++ [⟨name, type, false, none⟩] }

def addPackage (d : CapsuleDraft) (name version : String) : CapsuleDraft :=
  { d with packages := d.packages.insert name version }

def build (d : CapsuleDraft) : CapsuleDefinition :=
  ⟨d.id, d.name.getD d.id.symbol, d.category, d.source, d.ports, d.version, d.packages⟩

end CapsuleDraft

end CapsuleCompiler
