import CapsuleCompiler.Capsule
import CapsuleCompiler.Document.Diagnostic

/-!
# Document.Capsule — capsule definitions as documents

An unknown port type reads as `any`. A description, a version and packages are written only when there are any.
-/

namespace CapsuleCompiler

open Json (Fields Reader)

def CapsuleId.reader : Reader CapsuleId := .map CapsuleId.mk .string

def InstanceId.reader : Reader InstanceId := .map InstanceId.mk .string

def PortType.reader : Reader PortType :=
  .choice (PortType.all.map fun t => (t.name, .constant t)) (some .any)

namespace PortSpec

def fields : Fields (String × PortType × Bool × Option String × Unit) :=
  .field "name" .string .fault <|
  .field "type" PortType.reader .fault <|
  .field "required" .bool (.anywhere false) <|
  .field "description" (.optional .string) (.anywhere none) .done

def reader : Reader PortSpec :=
  .map (fun (name, type, required, description, _) => ⟨name, type, required, description⟩)
    (.record "PortSpec" fields)

def toJson (p : PortSpec) : Json :=
  .object ([("name", .string p.name), ("type", .string p.type.name),
    ("required", .bool p.required)] ++ optionalMember "description" p.description)

end PortSpec

namespace DeclaredPorts

def fields : Fields (List PortSpec × List PortSpec × Unit) :=
  .field "inputs" (.list PortSpec.reader) (.anywhere []) <|
  .field "outputs" (.list PortSpec.reader) (.anywhere []) .done

def reader : Reader DeclaredPorts :=
  .map (fun (inputs, outputs, _) => ⟨inputs, outputs⟩) (.record "DeclaredPorts" fields)

def toJson (p : DeclaredPorts) : Json :=
  .object [("inputs", .array (p.inputs.map PortSpec.toJson)),
    ("outputs", .array (p.outputs.map PortSpec.toJson))]

end DeclaredPorts

namespace CapsuleDefinition

def fields : Fields (CapsuleId × String × String × String × DeclaredPorts × Option String ×
    Dict String × Unit) :=
  .field "id" CapsuleId.reader .fault <|
  .field "name" .string .fault <|
  .field "category" .string (.anywhere "") <|
  .field "sourceTemplate" .string .fault <|
  .field "declaredPorts" DeclaredPorts.reader (.anywhere .none) <|
  .field "version" (.optional .string) (.anywhere none) <|
  .field "packages" (.dict .string) (.anywhere .empty) .done

def reader : Reader CapsuleDefinition :=
  .map (fun (id, name, category, source, ports, version, packages, _) =>
      ⟨id, name, category, source, ports, version, packages⟩)
    (.record "CapsuleDefinition" fields)

def toJson (d : CapsuleDefinition) : Json :=
  .object ([("id", .string d.id.text), ("name", .string d.name), ("category", .string d.category),
      ("sourceTemplate", .string d.source), ("declaredPorts", d.ports.toJson)] ++
    optionalMember "version" d.version ++
    if d.packages.isEmpty then [] else [("packages", .ofDict .string d.packages)])

end CapsuleDefinition

end CapsuleCompiler
