import CapsuleCompiler.Composition
import CapsuleCompiler.Document.Capsule

/-!
# Document.Composition — compositions as documents

Bindings of an input that are given twice count by their last value, and are written in the order of the ports.
-/

namespace CapsuleCompiler

open Json (Fields Reader)

namespace PortRef

def fields : Fields (InstanceId × String × Unit) :=
  .field "instance" InstanceId.reader .fault <|
  .field "port" .string .fault .done

def reader : Reader PortRef :=
  .map (fun (owner, port, _) => ⟨owner, port⟩) (.record "PortRef" fields)

def toJson (r : PortRef) : Json :=
  .object [("instance", .string r.owner.text), ("port", .string r.port)]

end PortRef

namespace Binding

def reader : Reader Binding :=
  .choice [("value", .value (.map literal .value)), ("ref", .value (.map reference PortRef.reader))]
    none

def toJson : Binding → Json
  | literal x => .object [("value", x)]
  | reference source => .object [("ref", source.toJson)]

end Binding

namespace Node

def fields : Fields (InstanceId × CapsuleId × Dict Binding × Unit) :=
  .field "instanceId" InstanceId.reader .fault <|
  .field "capsuleId" CapsuleId.reader .fault <|
  .field "inputBindings" (.dict Binding.reader) (.anywhere .empty) .done

def reader : Reader Node :=
  .map (fun (id, capsule, bindings, _) => ⟨id, capsule, bindings⟩)
    (.record "CompositionNode" fields)

def toJson (n : Node) : Json :=
  .object [("instanceId", .string n.id.text), ("capsuleId", .string n.capsule.text),
    ("inputBindings", .ofDict Binding.toJson n.bindings)]

end Node

namespace Connection

def fields : Fields (PortRef × PortRef × Unit) :=
  .field "from" PortRef.reader .fault <|
  .field "to" PortRef.reader .fault .done

def reader : Reader Connection :=
  .map (fun (source, target, _) => ⟨source, target⟩) (.record "Connection" fields)

def toJson (c : Connection) : Json :=
  .object [("from", c.source.toJson), ("to", c.target.toJson)]

end Connection

namespace Composition

def fields : Fields (String × Option String × List Node × List Connection × Unit) :=
  .field "name" .string .fault <|
  .field "description" (.optional .string) (.anywhere none) <|
  .field "nodes" (.list Node.reader) (.anywhere []) <|
  .field "connections" (.list Connection.reader) (.anywhere []) .done

def reader : Reader Composition :=
  .map (fun (name, description, nodes, connections, _) => ⟨name, description, nodes, connections⟩)
    (.record "Composition" fields)

def toJson (c : Composition) : Json :=
  .object ([("name", .string c.name)] ++ optionalMember "description" c.description ++
    [("nodes", .array (c.nodes.map Node.toJson)),
      ("connections", .array (c.connections.map Connection.toJson))])

def ofText (document : String) : Except CompileError Composition := ofDocument reader document

end Composition

end CapsuleCompiler
