import CapsuleCompiler.Json.Value
import CapsuleCompiler.Port

/-!
# Composition — placed instances and the links between their ports

This is the unit of compilation. Nodes stand in the order in which they are rendered; a binding gives an input
of a node a literal value or the output of another instance, and a connection links an output to an input.
-/

namespace CapsuleCompiler

inductive Binding
  | literal (value : Json)
  | reference (source : PortRef)
deriving Inhabited

/-- One placed instance of a capsule, with the bindings of its inputs by port name. -/
structure Node where
  id : InstanceId
  capsule : CapsuleId
  bindings : Dict Binding
deriving Inhabited

/-- A link from an output to an input. -/
structure Connection where
  source : PortRef
  target : PortRef
deriving DecidableEq, Inhabited

def Connection.text (c : Connection) : String := c.source.text ++ " -> " ++ c.target.text

structure Composition where
  name : String
  description : Option String
  nodes : List Node
  connections : List Connection
deriving Inhabited

/-- The first node of an instance id. -/
def Composition.node? (c : Composition) (id : InstanceId) : Option Node :=
  c.nodes.find? (·.id == id)

/-- The first id of a list that stands in it before. -/
def firstRepeated? [BEq α] (seen : List α) : List α → Option α
  | [] => none
  | x :: xs => if seen.contains x then some x else firstRepeated? (x :: seen) xs

end CapsuleCompiler
