import CapsuleCompiler.Markup.Element
import CapsuleCompiler.Markup.Escape
import CapsuleCompiler.State
import CapsuleCompiler.Text.Blank
import CapsuleCompiler.Validation

/-!
# Plan — what the main file of every shape shows

A plan has the imports of the placed capsules, the state variables, and one element for each placed node; the
shapes only differ in what they put around it. State variables go to the sources of the kept connections, then to
those of the reference bindings that name a declared output. An input takes, in this order, the variable of the
first connection into it, its literal, the variable of its reference, and a stand-in if it is required. An output
with a variable passes the setter to its element.
-/

namespace CapsuleCompiler

/-- The import of a placed capsule. -/
structure CapsuleImport where
  symbol : String
  capsule : CapsuleId
deriving DecidableEq, Inhabited

namespace CapsuleImport

def base : String := "@/components/capsules/"

def text (i : CapsuleImport) : String :=
  "import " ++ i.symbol ++ " from '" ++ base ++ i.capsule.text ++ "'"

end CapsuleImport

structure Plan where
  symbol : String
  title : String
  imports : List CapsuleImport
  state : List StateVariable
  elements : List Markup.Element
deriving Inhabited

namespace Plan

/-! ### Names -/

def requireCanonical (id : CapsuleId) : Except GenerationFault Unit :=
  if id.isCanonical then .ok () else .error (.idNotCanonical id)

/-- The component symbol of a capsule that generated code may name. -/
def symbolOf (id : CapsuleId) : Except GenerationFault String := do
  requireCanonical id
  if Naming.isIdentifier id.symbol then return id.symbol else .error (.noSymbol id)

def titleOf (name : String) : String :=
  match Text.trim name.toList with
  | [] => Naming.compositionSymbol name
  | c :: cs => .ofList (Markup.escape (c :: cs))

/-- One import for each capsule, where it is first placed. -/
def importsOf (seen : List CapsuleId) :
    List PlacedNode → Except GenerationFault (List CapsuleImport)
  | [] => .ok []
  | p :: ps =>
    let id := p.definition.id
    if id ∈ seen then importsOf seen ps
    else do
      let symbol ← symbolOf id
      return ⟨symbol, id⟩ :: (← importsOf (id :: seen) ps)

/-! ### State -/

/-- The outputs that the reference bindings of a node read. -/
def referenceSources (v : Validation) (p : PlacedNode) : List PortRef :=
  p.node.bindings.entries.filterMap fun e =>
    match e.2 with
    | .literal _ => none
    | .reference source =>
      if (p.definition.input? e.1).isSome && Validation.isOutput v.placed source then some source
      else none

/-- The outputs that need a variable, in the order in which they get one. -/
def sources (v : Validation) : List PortRef :=
  v.connections.map (·.source) ++ v.placed.flatMap (referenceSources v)

/-! ### Elements -/

/-- The variable that the first connection into an input reads. -/
def connected? (v : Validation) (state : List StateVariable) (n : Node) (input : PortSpec) :
    Option StateVariable := do
  let c ← v.connections.find? fun c => c.target.owner == n.id && c.target.port == input.name
  StateVariable.find? state c.source

def standIn? (input : PortSpec) : Option Markup.Attribute :=
  if input.required then some (.placeholder input.type) else none

/-- What an input is given, if anything. -/
def inputValue? (v : Validation) (state : List StateVariable) (n : Node) (input : PortSpec) :
    Option Markup.Attribute :=
  match connected? v state n input with
  | some found => some (.reference found.value)
  | none =>
    match n.bindings.get? input.name with
    | some (.literal x) => some (.ofJson x)
    | some (.reference source) =>
      match StateVariable.find? state source with
      | some found => some (.reference found.value)
      | none => standIn? input
    | none => standIn? input

def propOf (name : String) (value : Markup.Attribute) :
    Except GenerationFault Markup.ElementProp :=
  if Naming.isIdentifier name then .ok ⟨name, value⟩ else .error (.invalidProp name value.text)

def inputProps (v : Validation) (state : List StateVariable) (n : Node) :
    List PortSpec → Except GenerationFault (List Markup.ElementProp)
  | [] => .ok []
  | input :: inputs =>
    match inputValue? v state n input with
    | none => inputProps v state n inputs
    | some value => do
      let prop ← propOf input.name value
      return prop :: (← inputProps v state n inputs)

/-- The name of the prop that hears of an output. -/
def callbackName (output : PortSpec) : String := "on" ++ Naming.pascal output.name

def outputProps (state : List StateVariable) (n : Node) :
    List PortSpec → Except GenerationFault (List Markup.ElementProp)
  | [] => .ok []
  | output :: outputs =>
    match StateVariable.find? state ⟨n.id, output.name⟩ with
    | none => outputProps state n outputs
    | some found => do
      if Naming.isIdentifier output.name then
        let prop ← propOf (callbackName output) (.reference found.setter)
        return prop :: (← outputProps state n outputs)
      else .error (.invalidProp output.name n.id.text)

def elementOf (v : Validation) (state : List StateVariable) (p : PlacedNode) :
    Except GenerationFault Markup.Element := do
  let inputs ← inputProps v state p.node p.definition.ports.inputs
  let outputs ← outputProps state p.node p.definition.ports.outputs
  let tag ← symbolOf p.definition.id
  return ⟨tag, inputs ++ outputs⟩

def elementsOf (v : Validation) (state : List StateVariable) :
    List PlacedNode → Except GenerationFault (List Markup.Element)
  | [] => .ok []
  | p :: ps => do
    let element ← elementOf v state p
    return element :: (← elementsOf v state ps)

/-! ### The whole -/

def ofValidation (name : String) (v : Validation) : Except GenerationFault Plan := do
  let imports ← importsOf [] v.placed
  let state ← StateVariable.ensureAll [] (sources v)
  let elements ← elementsOf v state v.placed
  return ⟨Naming.compositionSymbol name, titleOf name, imports, state, elements⟩

/-- What stands before the exported function, with further imports behind those of the capsules. -/
def prelude (plan : Plan) (further : List String) : String :=
  let hook := if plan.state.isEmpty then [] else ["import \x7b useState \x7d from 'react'"]
  let lines := hook ++ plan.imports.map CapsuleImport.text ++ further
  (if plan.state.isEmpty then "" else "'use client'\n\n") ++
    (if lines.isEmpty then "" else "\n".intercalate lines ++ "\n\n")

/-- The declarations of the variables. -/
def stateBlock (plan : Plan) : String :=
  if plan.state.isEmpty then "" else String.join (plan.state.map StateVariable.text) ++ "\n"

end Plan

end CapsuleCompiler
