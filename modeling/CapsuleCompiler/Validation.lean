import CapsuleCompiler.Catalog
import CapsuleCompiler.Composition

/-!
# Validation — what of a composition can be compiled

Two nodes of one instance id stop the request. Everything else that is wrong costs a node, a binding or a
connection and leaves a finding: first the nodes whose capsule is unknown, in order, then the bindings of the
placed nodes, then the connections in order. A connection is kept when it runs from a declared output to a
declared input of placed instances; if their types differ it is kept with a warning.
-/

namespace CapsuleCompiler

/-- A node with the definition of its capsule. -/
structure PlacedNode where
  node : Node
  definition : CapsuleDefinition
deriving Inhabited

structure Validation where
  placed : List PlacedNode
  connections : List Connection
  diagnostics : List Diagnostic
deriving Inhabited

namespace Validation

/-! ### Nodes -/

/-- The first placed node of an instance. -/
def findPlaced (placed : List PlacedNode) (id : InstanceId) : Option PlacedNode :=
  placed.find? (·.node.id == id)

/-- Whether a port is a declared output of a placed instance. -/
def isOutput (placed : List PlacedNode) (source : PortRef) : Bool :=
  (findPlaced placed source.owner).any fun p => (p.definition.output? source.port).isSome

def place (catalog : Catalog) (nodes : List Node) : List PlacedNode :=
  nodes.filterMap fun n => (catalog.lookup n.capsule).map (PlacedNode.mk n)

/-- The nodes that no definition is known for. -/
def unplaced (catalog : Catalog) (nodes : List Node) : List Node :=
  nodes.filter fun n => !catalog.contains n.capsule

def unknownCapsule (n : Node) : Diagnostic where
  severity := .error
  kind := .missingDependency
  message :=
    "instance \"" ++ n.id.text ++ "\" uses unknown capsule \"" ++ n.capsule.text ++
      "\"; it is left out of the output"
  affected := [n.id.text, n.capsule.text]

/-! ### Bindings -/

def undeclaredInput (p : PlacedNode) (port : String) : Diagnostic where
  severity := .warning
  kind := .invalidPort
  message :=
    "binding on \"" ++ p.node.id.text ++ "." ++ port ++ "\": capsule \"" ++ p.definition.id.text ++
      "\" declares no input \"" ++ port ++ "\""
  affected := [p.node.id.text, p.definition.id.text]

def danglingSource (p : PlacedNode) (port : String) (source : PortRef) : Diagnostic where
  severity := .warning
  kind := .invalidPort
  message :=
    "binding on \"" ++ p.node.id.text ++ "." ++ port ++ "\" references \"" ++ source.text ++
      "\", which is not a declared output of a placed instance"
  affected := [p.node.id.text, source.owner.text]

def checkBinding (placed : List PlacedNode) (p : PlacedNode) (port : String) (binding : Binding) :
    Option Diagnostic :=
  if (p.definition.input? port).isNone then some (undeclaredInput p port)
  else
    match binding with
    | .literal _ => none
    | .reference source =>
      if isOutput placed source then none else some (danglingSource p port source)

def checkBindings (placed : List PlacedNode) (p : PlacedNode) : List Diagnostic :=
  p.node.bindings.entries.filterMap fun e => checkBinding placed p e.1 e.2

/-! ### Connections -/

/-- Why a connection is dropped. -/
inductive LinkFault
  | undefinedCapsule (id : InstanceId)
  | noInstance (id : InstanceId)
  | noOutput (capsule : CapsuleId) (port : String)
  | noInput (capsule : CapsuleId) (port : String)

def LinkFault.message : LinkFault → String
  | undefinedCapsule id => "instance \"" ++ id.text ++ "\" has no capsule definition"
  | noInstance id => "instance \"" ++ id.text ++ "\" is not part of the composition"
  | noOutput capsule port =>
    "capsule \"" ++ capsule.text ++ "\" declares no output \"" ++ port ++ "\""
  | noInput capsule port =>
    "capsule \"" ++ capsule.text ++ "\" declares no input \"" ++ port ++ "\""

def ends (c : Connection) : List String := [c.source.owner.text, c.target.owner.text]

def dropped (c : Connection) (fault : LinkFault) : Diagnostic :=
  ⟨.error, .invalidPort, "connection " ++ c.text ++ ": " ++ fault.message, ends c⟩

def mismatched (c : Connection) (output input : PortSpec) : Diagnostic where
  severity := .warning
  kind := .typeMismatch
  message :=
    "connection " ++ c.text ++ ": " ++ output.type.name ++ " output feeds " ++ input.type.name ++
      " input"
  affected := ends c

/-- The placed instance at an end of a connection; `unknown` are the ids of the nodes left out. -/
def endpoint (placed : List PlacedNode) (unknown : List InstanceId) (id : InstanceId) :
    Except LinkFault PlacedNode :=
  match findPlaced placed id with
  | some p => .ok p
  | none => .error (if unknown.contains id then .undefinedCapsule id else .noInstance id)

/-- The ports that a connection links. -/
def linkedPorts (placed : List PlacedNode) (unknown : List InstanceId) (c : Connection) :
    Except LinkFault (PortSpec × PortSpec) := do
  let producer ← endpoint placed unknown c.source.owner
  let consumer ← endpoint placed unknown c.target.owner
  match producer.definition.output? c.source.port with
  | none => .error (.noOutput producer.definition.id c.source.port)
  | some output =>
    match consumer.definition.input? c.target.port with
    | none => .error (.noInput consumer.definition.id c.target.port)
    | some input => .ok (output, input)

def isKept (placed : List PlacedNode) (unknown : List InstanceId) (c : Connection) : Bool :=
  match linkedPorts placed unknown c with
  | .ok _ => true
  | .error _ => false

/-- The finding on a connection, if there is one. -/
def checkConnection (placed : List PlacedNode) (unknown : List InstanceId) (c : Connection) :
    Option Diagnostic :=
  match linkedPorts placed unknown c with
  | .error fault => some (dropped c fault)
  | .ok (output, input) =>
    if output.type.compatible input.type then none else some (mismatched c output input)

/-! ### The whole -/

/-- The validation of a composition whose instance ids are distinct. -/
def ofComposition (catalog : Catalog) (c : Composition) : Validation :=
  let placed := place catalog c.nodes
  let left := unplaced catalog c.nodes
  let unknown := left.map (·.id)
  { placed
    connections := c.connections.filter (isKept placed unknown)
    diagnostics :=
      left.map unknownCapsule ++ placed.flatMap (checkBindings placed) ++
        c.connections.filterMap (checkConnection placed unknown) }

def placedNode? (v : Validation) (id : InstanceId) : Option PlacedNode := findPlaced v.placed id

end Validation

/-- The first instance id that an earlier node has too. -/
def Composition.repeatedInstance? (c : Composition) : Option InstanceId :=
  firstRepeated? [] (c.nodes.map (·.id))

def Composition.validate (c : Composition) (catalog : Catalog) : Except CompileError Validation :=
  match c.repeatedInstance? with
  | some id => .error (.invalidComposition (.repeatedInstance id))
  | none => .ok (.ofComposition catalog c)

end CapsuleCompiler
